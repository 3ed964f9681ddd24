import WebToken.Json.Printer
import WebToken.Ranged
import WebToken.Uuid

/-!
# Claims

Claims are registered ones, each with a type of its own, and custom ones, which keep the order in
which their names were first set. No custom claim has a registered name, and no name occurs twice,
so the JSON object of claims has distinct names (`Claims.nodup_names_toObject`).
-/

namespace WebToken

/-! ## Registered names -/

/-- A claim with a fixed meaning. -/
inductive RegisteredClaim where
  | iss
  | sub
  | aud
  | exp
  | nbf
  | iat
  | jti
  deriving Repr, DecidableEq

namespace RegisteredClaim

/-- The name of a registered claim. -/
def name : RegisteredClaim → String
  | iss => "iss"
  | sub => "sub"
  | aud => "aud"
  | exp => "exp"
  | nbf => "nbf"
  | iat => "iat"
  | jti => "jti"

/-- All registered claims, in the order in which they are written. -/
def all : List RegisteredClaim := [iss, sub, aud, exp, nbf, iat, jti]

/-- The names of the registered claims. -/
def names : List String := all.map name

/-- The registered claim with a name. -/
def ofName? (n : String) : Option RegisteredClaim := all.find? fun c => c.name == n

theorem nodup_names : names.Nodup := by decide

theorem notMem_names_of_ofName? {n : String} (h : ofName? n = none) : n ∉ names := by
  simp only [ofName?, List.find?_eq_none, beq_iff_eq] at h
  simp only [names, List.mem_map, not_exists, not_and]
  exact h

end RegisteredClaim

/-! ## Types -/

/-- For whom claims are meant: one recipient or a list. -/
inductive Audience where
  | single (name : String)
  | multiple (names : List String)
  deriving Repr, DecidableEq

/-- Whether an audience has a member. -/
def Audience.contains : Audience → String → Bool
  | single name, other => name == other
  | multiple names, other => names.contains other

/-- The claims whose names are not registered. -/
structure CustomClaims where
  members : Json.Object
  unregistered : ∀ name ∈ members.names, name ∉ RegisteredClaim.names
  distinct : members.names.Nodup

namespace CustomClaims

/-- No custom claims. -/
def empty : CustomClaims := ⟨[], by simp [Json.Object.names], by simp [Json.Object.names]⟩

/-- The claims with one set: in its place if it is there, else at the end. -/
def insert (c : CustomClaims) (name : String) (v : Json.Value)
    (h : name ∉ RegisteredClaim.names) : CustomClaims where
  members := c.members.insert name v
  unregistered := by
    intro n hn
    by_cases hm : name ∈ c.members.names
    · rw [Json.Object.names_insert_of_mem v hm] at hn
      exact c.unregistered n hn
    · rw [Json.Object.insert_of_notMem v hm] at hn
      simp only [Json.Object.names, List.map_append, List.map_cons, List.map_nil,
        List.mem_append, List.mem_singleton] at hn
      rcases hn with hn | rfl
      · exact c.unregistered n hn
      · exact h
  distinct := Json.Object.nodup_names_insert name v c.distinct

end CustomClaims

/-- Claims; times are seconds since the beginning of 1970. -/
structure Claims where
  iss : Option String
  sub : Option String
  aud : Option Audience
  exp : Option Int64
  nbf : Option Int64
  iat : Option Int64
  jti : Option String
  custom : CustomClaims

namespace Claims

/-! ## Making claims -/

/-- No claims. -/
def empty : Claims := ⟨none, none, none, none, none, none, none, .empty⟩

/-- Claims issued at a time, valid from then on, with an identifier made of random bytes. -/
def issued (now : Int64) (random : Vector UInt8 16) : Claims :=
  { empty with iat := some now, nbf := some now, jti := some (Uuid.text random) }

def withIssuer (c : Claims) (issuer : String) : Claims := { c with iss := some issuer }
def withSubject (c : Claims) (subject : String) : Claims := { c with sub := some subject }
def withAudience (c : Claims) (audience : Audience) : Claims := { c with aud := some audience }
def withExpiration (c : Claims) (exp : Int64) : Claims := { c with exp := some exp }
def withNotBefore (c : Claims) (nbf : Int64) : Claims := { c with nbf := some nbf }
def withIssuedAt (c : Claims) (iat : Int64) : Claims := { c with iat := some iat }
def withJwtId (c : Claims) (jti : String) : Claims := { c with jti := some jti }

/-- The claims expiring some time after they were issued, or after `now` if that is not known: the
end of their lifetime must be a time. -/
def withLifetime (c : Claims) (seconds now : Int64) : Ranged Claims := do
  let exp ← Ranged.sum (c.iat.getD now) seconds
  return c.withExpiration exp

/-- The claims with a custom one set. -/
def withClaim (c : Claims) (name : String) (v : Json.Value) : Except Error Claims :=
  if h : name ∈ RegisteredClaim.names then .error (.invalidParameter (.reservedClaim name))
  else .ok { c with custom := c.custom.insert name v h }

/-! ## Looking at claims -/

/-- The value of a custom claim. -/
def claim? (c : Claims) (name : String) : Option Json.Value := c.custom.members.get? name

/-- Whether claims have expired at a time. -/
def isExpiredAt (c : Claims) (time : Int64) : Bool :=
  match c.exp with
  | some exp => exp ≤ time
  | none => false

/-- Whether claims are in force at a time. -/
def isValidAt (c : Claims) (time : Int64) : Bool :=
  match c.nbf with
  | some nbf => !(time < nbf) && !c.isExpiredAt time
  | none => !c.isExpiredAt time

/-! ## The JSON object of claims -/

/-- A time as a value. -/
def timeValue (t : Int64) : Json.Value := .integer t.toInt

/-- An audience as a value. -/
def audienceValue : Audience → Json.Value
  | .single name => .string name
  | .multiple names => .array (names.map .string)

/-- The value of a registered claim. -/
def registered? (c : Claims) : RegisteredClaim → Option Json.Value
  | .iss => c.iss.map .string
  | .sub => c.sub.map .string
  | .aud => c.aud.map audienceValue
  | .exp => c.exp.map timeValue
  | .nbf => c.nbf.map timeValue
  | .iat => c.iat.map timeValue
  | .jti => c.jti.map .string

/-- The registered claims that are there, in order. -/
def registeredMembers (c : Claims) : Json.Object :=
  RegisteredClaim.all.filterMap fun r => (c.registered? r).map fun v => (r.name, v)

/-- The JSON object of claims: first the registered ones, then the custom ones. -/
def toObject (c : Claims) : Json.Object := c.registeredMembers ++ c.custom.members

/-- The JSON text of claims. -/
def json (c : Claims) : String := c.toObject.text

theorem names_registeredMembers (c : Claims) :
    c.registeredMembers.names =
      (RegisteredClaim.all.filter fun r => (c.registered? r).isSome).map RegisteredClaim.name := by
  rw [registeredMembers, Json.Object.names]
  induction RegisteredClaim.all with
  | nil => rfl
  | cons r rs ih => cases h : c.registered? r <;> simp [h, ih]

/-- No name occurs twice in the object of claims. -/
theorem nodup_names_toObject (c : Claims) : c.toObject.names.Nodup := by
  have hsub : c.registeredMembers.names.Sublist RegisteredClaim.names := by
    rw [names_registeredMembers]
    exact (List.filter_sublist).map _
  rw [toObject, Json.Object.names, List.map_append, List.nodup_append]
  refine ⟨hsub.nodup RegisteredClaim.nodup_names, c.custom.distinct, ?_⟩
  rintro a ha b hb rfl
  exact c.custom.unregistered a hb (hsub.subset ha)

end Claims

end WebToken
