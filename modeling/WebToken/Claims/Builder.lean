import WebToken.Claims

/-!
# Claims for a subject

The claims of a subject are put together from an issuer, an audience, a lifetime and custom
claims, and are issued when they are built.
-/

namespace WebToken

/-- What claims are built from. -/
structure ClaimsBuilder where
  issuer : String
  subject : Option String
  audience : List String
  lifetime : Int64
  /-- The custom claims, in order, with distinct names. -/
  custom : Json.Object

namespace ClaimsBuilder

/-- A builder for an issuer; claims live for a quarter of an hour. -/
def new (issuer : String) : ClaimsBuilder := ⟨issuer, none, [], 900, []⟩

/-- The builder with a custom claim set. -/
def withClaim (b : ClaimsBuilder) (name : String) (v : Json.Value) : ClaimsBuilder :=
  { b with custom := b.custom.insert name v }

/-- The audience of a list: none, its only member, or the list. -/
def audienceOf? : List String → Option Audience
  | [] => none
  | [name] => some (.single name)
  | names => some (.multiple names)

/-- Claims with further custom ones. -/
def addClaims (c : Claims) : Json.Object → Except Error Claims
  | [] => .ok c
  | (name, v) :: rest => do addClaims (← c.withClaim name v) rest

/-- The claims, issued at a time under an identifier made of random bytes. -/
def build (b : ClaimsBuilder) (now : Int64) (random : Vector UInt8 16) : Ranged Claims :=
  match b.subject with
  | none => throw (.invalidParameter .missingSubject)
  | some subject =>
    if b.lifetime ≤ 0 then throw (.invalidParameter .lifetime)
    else do
      let c := ((Claims.issued now random).withIssuer b.issuer).withSubject subject
      let c ← c.withLifetime b.lifetime now
      Ranged.within (addClaims { c with aud := audienceOf? b.audience } b.custom)

end ClaimsBuilder

end WebToken
