import WebToken.Json.Document
import WebToken.Text.Quoted
import WebToken.Decimal.Shortest

/-!
# Reading typed values

Where a particular kind of value is wanted, a document or a value that is none is refused with
what was found and what was wanted. This file names what can be found, the ways in which reading
fails, and the readers of single values; records are read by `WebToken.Json.Record`.
-/

namespace WebToken

namespace Json

/-! ## Failures -/

/-- What a reader found. -/
inductive Found where
  | null
  | bool (b : Bool)
  | integer (n : Int)
  | float (x : Double)
  | string (s : String)
  | sequence
  | map
  deriving Repr, DecidableEq

/-- The wording of what was found. -/
def Found.message : Found → String
  | .null => "null"
  | .bool b => s!"boolean `{b}`"
  | .integer n => s!"integer `{n}`"
  | .float x => s!"floating point `{String.ofList x.toChars}`"
  | .string s => s!"string {Text.quoted s}"
  | .sequence => "sequence"
  | .map => "map"

/-- How reading a typed value fails. -/
inductive ReadError where
  /-- The text itself is broken. -/
  | fault (fault : Fault)
  /-- Another kind of value stands there. -/
  | type (found : Found) (expected : String)
  /-- The kind is right, but not the value. -/
  | value (found : Found) (expected : String)
  /-- An array has too few or too many items. -/
  | length (count : Nat) (expected : String)
  /-- A member is missing. -/
  | missing (name : String)
  /-- A member stands there twice. -/
  | duplicate (name : String)
  /-- A name is none of those that may stand there. -/
  | variant (name : String) (choices : List String)
  /-- No alternative of a choice fits. -/
  | alternative (kind : String)
  deriving Repr, DecidableEq

/-- The names that may stand somewhere, in words. -/
def choicesMessage (choices : List String) : String :=
  match choices with
  | [a] => s!"`{a}`"
  | [a, b] => s!"`{a}` or `{b}`"
  | names => "one of " ++ ", ".intercalate (names.map fun name => s!"`{name}`")

/-- The wording of a failure. -/
def ReadError.message : ReadError → String
  | .fault f => f.message
  | .type found expected => s!"invalid type: {found.message}, expected {expected}"
  | .value found expected => s!"invalid value: {found.message}, expected {expected}"
  | .length count expected => s!"invalid length {count}, expected {expected}"
  | .missing name => s!"missing field `{name}`"
  | .duplicate name => s!"duplicate field `{name}`"
  | .variant name choices => s!"unknown variant `{name}`, expected {choicesMessage choices}"
  | .alternative kind => s!"data did not match any variant of untagged enum {kind}"

/-- A broken text as a failure to read. -/
def orFault {α : Type} (r : Except Fault α) : Except ReadError α := r.mapError .fault

/-! ## What stands there -/

/-- What a value is to a reader that wants something else. -/
def Value.found : Value → Found
  | .null => .null
  | .bool b => .bool b
  | .integer n => .integer n
  | .float x => .float x
  | .string s => .string s
  | .array _ => .sequence
  | .object _ => .map

/-- What a document is to a reader that wants something else: arrays and objects are not looked
into. -/
def Document.found : Document → Except Fault Found
  | .null => .ok .null
  | .bool b => .ok (.bool b)
  | .number x => x.value.map Value.found
  | .string l => l.text.map .string
  | .array _ => .ok .sequence
  | .object _ => .ok .map
  | .brokenNull fault | .brokenWord fault | .brokenNumber fault | .cut fault => .error fault

/-- Refuse a value of another kind. -/
def Value.refuse {α : Type} (v : Value) (expected : String) : Except ReadError α :=
  .error (.type v.found expected)

/-- Refuse a document of another kind. -/
def Document.refuse {α : Type} (d : Document) (expected : String) : Except ReadError α :=
  match d.found with
  | .ok found => .error (.type found expected)
  | .error fault => .error (.fault fault)

/-! ## Single values -/

/-- The text that a value is. -/
def Value.asText : Value → Except ReadError String
  | .string s => .ok s
  | v => v.refuse "a string"

/-- The text that a document is. -/
def Document.asText : Document → Except ReadError String
  | .string l => orFault l.text
  | d => d.refuse "a string"

/-- The members of the object that a value is. -/
def Value.asObject : Value → Except ReadError Object
  | .object ms => .ok ms
  | v => v.refuse "a map"

/-- The members of the object that a document is, nested `depth` deep. -/
def Document.asObject (depth : Nat) : Document → Except ReadError Object
  | .object members => do
    match ← orFault ((Document.object members).value depth) with
    | .object ms => return ms
    | _ => return []
  | d => d.refuse "a map"

/-- The items of the array that a value is. -/
def Value.asItems : Value → Except ReadError (List Value)
  | .array vs => .ok vs
  | v => v.refuse "a sequence"

/-- The integer of 64 bits that a document is. -/
def Document.asInt64 : Document → Except ReadError Int64
  | .number x =>
    match x.value with
    | .ok (.integer n) =>
      if -0x8000000000000000 ≤ n ∧ n < 0x8000000000000000 then .ok (Int64.ofInt n)
      else .error (.value (.integer n) "i64")
    | .ok v => v.refuse "i64"
    | .error fault => .error (.fault fault)
  | d => d.refuse "i64"

/-- A value that may be null. -/
def Value.optional {α : Type} (read : Value → Except ReadError α) :
    Value → Except ReadError (Option α)
  | .null => .ok none
  | v => (read v).map some

/-- A document that may be null. -/
def Document.optional {α : Type} (read : Document → Except ReadError α) :
    Document → Except ReadError (Option α)
  | .null => .ok none
  | .brokenNull fault => .error (.fault fault)
  | d => (read d).map some

/-! ## Choices by name -/

/-- The choice that a name stands for. -/
def choose {α : Type} (table : List (String × α)) (name : String) : Except ReadError α :=
  match table.lookup name with
  | some a => .ok a
  | none => .error (.variant name (table.map (·.1)))

/-- The choice that a value makes: a name, or an object with the name as its only member and
null under it. -/
def Value.asChoice {α : Type} (table : List (String × α)) : Value → Except ReadError α
  | .string s => choose table s
  | .object [(name, content)] => do
    let a ← choose table name
    match content with
    | .null => .ok a
    | v => v.refuse "unit"
  | .object _ => .error (.value .map "map with a single key")
  | v => v.refuse "string or map"

/-- The choice that a document makes: a name, or an object with the name as its only member and
null under it. -/
def Document.asChoice {α : Type} (depth : Nat) (table : List (String × α)) :
    Document → Except ReadError α
  | .string l => do choose table (← orFault l.text)
  | .object members =>
    match depth, members with
    | 0, _ => .error (.fault .nestedTooDeep)
    | _ + 1, .member l content tail => do
      let a ← choose table (← orFault l.text)
      match content with
      | .null =>
        match tail with
        | .done .closed => .ok a
        | .done .endOfText => .error (.fault .endInObject)
        | _ => .error (.fault .expectedValue)
      | d => d.refuse "unit"
    | _ + 1, .done .endOfText => .error (.fault .endInObject)
    | _ + 1, .done .noName => .error (.fault .nameNotString)
    | _ + 1, .done _ => .error (.fault .expectedValue)
  | .cut fault => .error (.fault fault)
  | _ => .error (.fault .expectedValue)

/-- The items of the array that a document is, each read by `read`. -/
def Items.readAll {α : Type} (read : Document → Except ReadError α) :
    Items → Except ReadError (List α)
  | .done ending => do
    orFault (Fault.raise ending.itemFault)
    return []
  | .item head tail => do
    let a ← read head
    let as ← tail.readAll read
    return a :: as

/-- The list that a document is. -/
def Document.asList {α : Type} (depth : Nat) (read : Document → Except ReadError α) :
    Document → Except ReadError (List α)
  | .array items => if depth = 0 then .error (.fault .nestedTooDeep) else items.readAll read
  | d => d.refuse "a sequence"

/-- The list that a value is. -/
def Value.asList {α : Type} (read : Value → Except ReadError α) (v : Value) :
    Except ReadError (List α) := do
  (← v.asItems).mapM read

/-! ## Texts -/

/-- What a whole text is read as. -/
def readText {α : Type} (read : Document → Except ReadError α) (text : Bytes) :
    Except ReadError α :=
  Json.readAll ReadError.fault read text

/-- The object that a text is. -/
def Object.parse (text : Bytes) : Except ReadError Object :=
  readText (Document.asObject Document.maxDepth) text

end Json

end WebToken
