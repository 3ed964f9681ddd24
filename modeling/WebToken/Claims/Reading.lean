import WebToken.Claims
import WebToken.Json.TextRecord

/-!
# Claims from texts

Claims are read from a JSON object. A registered claim must have its type or be null, and may not
stand there twice; every other member is a custom claim, of which the last one with a name counts.
-/

namespace WebToken

namespace Claims

open Json (Document Members ReadError Value)

/-- The nesting that is left inside claims. -/
def innerDepth : Nat := Document.maxDepth - 1

/-- The audience that a value is. -/
def audienceOf : Value → Except ReadError Audience
  | .string name => .ok (.single name)
  | v =>
    match v.asList Value.asText with
    | .ok names => .ok (.multiple names)
    | .error _ => .error (.alternative "Audience")

/-- The audience that a document is. -/
def readAudience (d : Document) : Except ReadError Audience := do
  audienceOf (← Json.orFault (d.value innerDepth))

/-- The claims with a registered one as a document says. -/
def readRegistered (c : Claims) (d : Document) : RegisteredClaim → Except ReadError Claims
  | .iss => do return { c with iss := ← d.optional Document.asText }
  | .sub => do return { c with sub := ← d.optional Document.asText }
  | .aud => do return { c with aud := ← d.optional readAudience }
  | .exp => do return { c with exp := ← d.optional Document.asInt64 }
  | .nbf => do return { c with nbf := ← d.optional Document.asInt64 }
  | .iat => do return { c with iat := ← d.optional Document.asInt64 }
  | .jti => do return { c with jti := ← d.optional Document.asText }

/-- The claims with those of further members; `seen` are the registered ones that were read. -/
def readMembers (c : Claims) (seen : List RegisteredClaim) : Members → Except ReadError Claims
  | .done ending => do
    Json.orFault (Json.Fault.raise ending.memberFault)
    return c
  | .member name value tail => do
    let name ← Json.orFault name.text
    match h : RegisteredClaim.ofName? name with
    | some r =>
      if r ∈ seen then .error (.duplicate name)
      else
        let c ← c.readRegistered value r
        c.readMembers (r :: seen) tail
    | none =>
      let v ← Json.orFault (value.value innerDepth)
      let custom := c.custom.insert name v (RegisteredClaim.notMem_names_of_ofName? h)
      { c with custom }.readMembers seen tail

/-- The claims that a document is. -/
def read : Document → Except ReadError Claims
  | .object members => empty.readMembers [] members
  | d => d.refuse "struct Claims"

/-- The claims that a text is. -/
def parse (text : Bytes) : Except ReadError Claims := Json.readText read text

/-- The claims that a text is; what cannot be read are invalid claims. -/
def ofBytes (text : Bytes) : Except Error Claims :=
  (parse text).mapError fun e => .invalidClaims (.syntaxError e)

end Claims

end WebToken
