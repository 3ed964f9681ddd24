import WebToken.Json.Record

/-!
# Records in texts

A record that is read while its text is: what is wrong is reported in the order in which it stands
there. A field that stands there twice is refused before its second value is looked at, and
members that are no fields are only passed over.
-/

namespace WebToken

namespace Json

/-- A field that is read from a document. -/
structure TextField where
  name : String
  presence : Presence
  /-- The value of the field. -/
  read : Document → Except ReadError Value

/-- A kind of record that is read from a document. -/
structure TextRecord where
  title : String
  fields : List TextField

namespace TextRecord

/-- The members that are fields, behind those already read. -/
def readMembers (r : TextRecord) (o : Object) : Members → Except ReadError Object
  | .done ending => do
    orFault (Fault.raise ending.memberFault)
    return o
  | .member name value tail => do
    let name ← orFault name.text
    match r.fields.find? (·.name == name) with
    | none =>
      orFault value.skip
      r.readMembers o tail
    | some f =>
      if o.contains name then .error (.duplicate name)
      else
        let v ← f.read value
        r.readMembers (o ++ [(name, v)]) tail

/-- The first field that is missing and must not be. -/
def missing? (r : TextRecord) (o : Object) : Option TextField :=
  r.fields.find? fun f => f.presence == .required && !o.contains f.name

/-- The fault of what stands behind the last field of an array. -/
def afterItems : Items → Option Fault
  | .done .closed => none
  | .done .endOfText => some .endInList
  | .done .trailingComma => some .trailingComma
  | _ => some .trailingCharacters

/-- The members that the items of an array stand for, from the field at `index` on. -/
def ofItems (r : TextRecord) (index : Nat) : List TextField → Items → Except ReadError Object
  | [], items => do
    orFault (Fault.raise (afterItems items))
    return []
  | f :: fs, .item head tail => do
    let v ← f.read head
    return (f.name, v) :: (← r.ofItems (index + 1) fs tail)
  | _ :: _, .done ending => do
    orFault (Fault.raise ending.itemFault)
    .error (.length index s!"struct {r.title} with {r.fields.length} elements")

/-- The members of the record that a document is. -/
def read (r : TextRecord) : Document → Except ReadError Object
  | .object members => do
    let o ← r.readMembers [] members
    match r.missing? o with
    | some f => .error (.missing f.name)
    | none => return o
  | .array items => r.ofItems 0 r.fields items
  | d => d.refuse s!"struct {r.title}"

end TextRecord

end Json

end WebToken
