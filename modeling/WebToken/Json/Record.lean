import WebToken.Json.Reading

/-!
# Records

A record is a JSON object with named fields; where a record is wanted, an array of the fields in
their order may stand too. Members are checked in the order in which they stand, then the fields
that must not be missing in the order of the record; members that are no fields are passed over.
-/

namespace WebToken

namespace Json

/-- When a field may be missing. -/
inductive Presence where
  /-- Never. -/
  | required
  /-- From an object, but not from an array. -/
  | optional
  /-- From an object, and from the end of an array. -/
  | defaulted
  deriving Repr, DecidableEq

/-- A field of a record. -/
structure Field where
  name : String
  presence : Presence
  /-- Refuses what cannot be the field's value. -/
  check : Value → Except ReadError Unit

/-- A kind of record. -/
structure Record where
  title : String
  fields : List Field

namespace Record

/-- The check of a member: none if it is no field. -/
def checkMember (r : Record) (name : String) (v : Value) : Except ReadError Unit :=
  match r.fields.find? (·.name == name) with
  | some f => f.check v
  | none => .ok ()

/-- Check the members in their order. -/
def checkMembers (r : Record) : Object → Except ReadError Unit
  | [] => .ok ()
  | (name, v) :: rest => do
    r.checkMember name v
    r.checkMembers rest

/-- The first field that is missing and must not be. -/
def missing? (r : Record) (o : Object) : Option Field :=
  r.fields.find? fun f => f.presence == .required && !o.contains f.name

/-- Check that an object has the fields of the record. -/
def checkObject (r : Record) (o : Object) : Except ReadError Unit := do
  r.checkMembers o
  match r.missing? o with
  | some f => .error (.missing f.name)
  | none => .ok ()

/-- What an array for the record is expected to be. -/
def arrayTitle (r : Record) : String :=
  s!"struct {r.title} with {r.fields.length} elements"

/-- The members that an array of fields stands for, from the field at `index` on. -/
def ofItems (r : Record) (count index : Nat) :
    List Field → List Value → Except ReadError Object
  | [], [] => .ok []
  | [], _ :: _ => .error (.length count "fewer elements in array")
  | f :: fs, [] =>
    if f.presence = .defaulted then ofItems r count (index + 1) fs []
    else .error (.length index r.arrayTitle)
  | f :: fs, v :: vs => do
    f.check v
    return (f.name, v) :: (← ofItems r count (index + 1) fs vs)

/-- The members of the record that a value is. -/
def read (r : Record) : Value → Except ReadError Object
  | .object o => do
    r.checkObject o
    return o
  | .array vs => r.ofItems vs.length 0 r.fields vs
  | v => v.refuse s!"struct {r.title}"

end Record

namespace Field

/-- A text that must be there. -/
def text (name : String) : Field :=
  ⟨name, .required, fun v => do let _ ← v.asText⟩

/-- A text that is empty if missing. -/
def textOrEmpty (name : String) : Field :=
  ⟨name, .defaulted, fun v => do let _ ← v.asText⟩

/-- A text that may be null or missing. -/
def optionalText (name : String) : Field :=
  ⟨name, .defaulted, fun v => do let _ ← v.optional Value.asText⟩

/-- An object that may be null or missing. -/
def optionalObject (name : String) : Field :=
  ⟨name, .defaulted, fun v => do let _ ← v.optional Value.asObject⟩

/-- A list of records. -/
def list (name : String) (r : Record) : Field :=
  ⟨name, .required, fun v => do let _ ← v.asList r.read⟩

end Field

/-- The object that a member holds, if it holds one. -/
def Object.object? (o : Object) (name : String) : Option Object :=
  match o.get? name with
  | some (.object ms) => some ms
  | _ => none

/-- The records that a member holds, as far as it holds any. -/
def Object.records (o : Object) (name : String) (r : Record) : List Object :=
  match o.get? name with
  | some (.array vs) => vs.filterMap fun v => (r.read v).toOption
  | _ => []

end Json

end WebToken
