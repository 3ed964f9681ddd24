import WebToken.Json.Literal
import WebToken.Json.Numeral

/-!
# JSON documents

A document is a JSON text as it is written, cut off at the first place where it stops being JSON.
What was written before that place is kept, so that a reader who wants a particular kind of value
meets its own complaints and those about the text in the order in which they stand there.

Numbers are kept as numerals and strings as pieces; what they denote is decided by whoever reads
them (`Document.value`), and a value that nobody asks for is only passed over (`Document.skip`).
-/

namespace WebToken

namespace Json

/-- How a list of items or members ends. -/
inductive Ending where
  /-- With its closing bracket. -/
  | closed
  /-- Inside the last entry, which is cut off itself. -/
  | inside
  /-- At the end of the text, where an entry, a comma or the bracket should stand. -/
  | endOfText
  /-- Where a comma or the bracket should stand. -/
  | noComma
  /-- At a closing bracket after a comma. -/
  | trailingComma
  /-- At the end of the text after a comma. -/
  | openComma
  /-- Where the name of a member should stand, at something else than a string. -/
  | noName
  deriving Repr, DecidableEq

mutual

/-- A JSON text as it is written. -/
inductive Document where
  | null
  | bool (b : Bool)
  | number (x : Numeral)
  | string (l : Literal)
  | array (items : Items)
  | object (members : Members)
  /-- The text is cut off inside `null`. -/
  | brokenNull (fault : Fault)
  /-- The text is cut off inside another word. -/
  | brokenWord (fault : Fault)
  /-- The text is cut off inside a number. -/
  | brokenNumber (fault : Fault)
  /-- The text is cut off before a value begins. -/
  | cut (fault : Fault)

/-- The items of an array. -/
inductive Items where
  | done (ending : Ending)
  | item (head : Document) (tail : Items)

/-- The members of an object. -/
inductive Members where
  | done (ending : Ending)
  | member (name : Literal) (value : Document) (tail : Members)

end

namespace Document

/-! ## Reading a text -/

/-- Whether a byte is blank in JSON: space, tab, line feed or carriage return. -/
def isBlank (b : UInt8) : Bool := b = 0x20 || b = 0x09 || b = 0x0A || b = 0x0D

/-- The text from its first byte that is not blank. -/
def skipBlanks (text : Bytes) : Bytes := text.dropWhile isBlank

/-- The text behind a word that should stand at its front. -/
def word : Bytes → Bytes → Except Fault Bytes
  | [], text => .ok text
  | _ :: _, [] => .error .endInValue
  | w :: ws, b :: text => if w = b then word ws text else .error .expectedWord

/-- A value that is neither an array nor an object, and the text behind it if it is complete. -/
def scalar (text : Bytes) : Document × Option Bytes :=
  let named (d : Document) (broken : Fault → Document) (rest : Except Fault Bytes) :
      Document × Option Bytes :=
    match rest with
    | .ok left => (d, some left)
    | .error fault => (broken fault, none)
  match text with
  | [] => (.cut .endInValue, none)
  | b :: rest =>
    if b = 0x6E then named .null .brokenNull (word [0x75, 0x6C, 0x6C] rest)
    else if b = 0x74 then named (.bool true) .brokenWord (word [0x72, 0x75, 0x65] rest)
    else if b = 0x66 then named (.bool false) .brokenWord (word [0x61, 0x6C, 0x73, 0x65] rest)
    else if b = Literal.quote then
      let (l, left) := Literal.read rest
      (.string l, if l.isClosed then some left else none)
    else if b = 0x2D ∨ (Numeral.digit? b).isSome then
      match Numeral.read text with
      | .ok (x, left) => (.number x, some left)
      | .error fault => (.brokenNumber fault, none)
    else (.cut .expectedValue, none)

mutual

/-- The value at the front of a text, and the text behind it if it is complete. -/
def readValue : Nat → Bytes → Document × Option Bytes
  | 0, _ => (.cut .endInValue, none)
  | fuel + 1, text =>
    match skipBlanks text with
    | [] => (.cut .endInValue, none)
    | b :: rest =>
      if b = 0x5B then
        let (items, left) := readItems fuel true rest
        (.array items, left)
      else if b = 0x7B then
        let (members, left) := readMembers fuel true rest
        (.object members, left)
      else scalar (b :: rest)

/-- The items of an array up to its closing bracket; the first needs no comma before it. -/
def readItems : Nat → Bool → Bytes → Items × Option Bytes
  | 0, _, _ => (.done .endOfText, none)
  | fuel + 1, first, text =>
    match skipBlanks text with
    | [] => (.done .endOfText, none)
    | b :: rest =>
      if b = 0x5D then (.done .closed, some rest)
      else if first then readItem fuel (b :: rest)
      else if b = 0x2C then
        match skipBlanks rest with
        | [] => (.done .openComma, none)
        | c :: rest => if c = 0x5D then (.done .trailingComma, none) else readItem fuel (c :: rest)
      else (.done .noComma, none)

/-- One item and the items after it. -/
def readItem : Nat → Bytes → Items × Option Bytes
  | 0, _ => (.done .endOfText, none)
  | fuel + 1, text =>
    match readValue fuel text with
    | (d, none) => (.item d (.done .inside), none)
    | (d, some left) =>
      let (items, left) := readItems fuel false left
      (.item d items, left)

/-- The members of an object up to its closing bracket; the first needs no comma before it. -/
def readMembers : Nat → Bool → Bytes → Members × Option Bytes
  | 0, _, _ => (.done .endOfText, none)
  | fuel + 1, first, text =>
    match skipBlanks text with
    | [] => (.done .endOfText, none)
    | b :: rest =>
      if b = 0x7D then (.done .closed, some rest)
      else if first then readMember fuel (b :: rest)
      else if b = 0x2C then
        match skipBlanks rest with
        | [] => (.done .openComma, none)
        | c :: rest => if c = 0x7D then (.done .trailingComma, none) else readMember fuel (c :: rest)
      else (.done .noComma, none)

/-- One member and the members after it. -/
def readMember : Nat → Bytes → Members × Option Bytes
  | 0, _ => (.done .endOfText, none)
  | _ + 1, [] => (.done .endOfText, none)
  | fuel + 1, b :: rest =>
    if b = Literal.quote then
      let (l, left) := Literal.read rest
      if l.isClosed then
        match skipBlanks left with
        | [] => (.member l (.cut .endInObject) (.done .inside), none)
        | c :: left =>
          if c = 0x3A then
            match readValue fuel left with
            | (d, none) => (.member l d (.done .inside), none)
            | (d, some left) =>
              let (members, left) := readMembers fuel false left
              (.member l d members, left)
          else (.member l (.cut .expectedColon) (.done .inside), none)
      else (.member l .null (.done .inside), none)
    else (.done .noName, none)

end

/-- The document that a text begins with, and the text behind it if it is complete. Every call
reads a byte or is the second on one byte, which bounds their number. -/
def read (text : Bytes) : Document × Option Bytes :=
  readValue (3 * text.length + 3) text

/-! ## Reading values -/

/-- The deepest nesting of arrays and objects that is read. -/
def maxDepth : Nat := 127

end Document

/-- The fault of a list of items that is not closed. -/
def Ending.itemFault : Ending → Option Fault
  | .closed | .inside => none
  | .endOfText => some .endInList
  | .noComma => some .expectedListEnd
  | .trailingComma => some .trailingComma
  | .openComma => some .endInValue
  | .noName => some .expectedValue

/-- The fault of a list of members that is not closed. -/
def Ending.memberFault : Ending → Option Fault
  | .closed | .inside => none
  | .endOfText => some .endInObject
  | .noComma => some .expectedObjectEnd
  | .trailingComma => some .trailingComma
  | .openComma => some .endInValue
  | .noName => some .nameNotString

/-- A fault if there is one. -/
def Fault.raise : Option Fault → Except Fault Unit
  | some fault => .error fault
  | none => .ok ()

mutual

/-- The value of a document, in which arrays and objects may be nested `depth` deep. A repeated
name keeps its first place and its last value. -/
def Document.value (depth : Nat) : Document → Except Fault Value
  | .null => .ok .null
  | .bool b => .ok (.bool b)
  | .number x => x.value
  | .string l => l.text.map .string
  | .array items =>
    match depth with
    | 0 => .error .nestedTooDeep
    | depth + 1 => (items.values depth).map .array
  | .object members =>
    match depth with
    | 0 => .error .nestedTooDeep
    | depth + 1 => (members.values depth).map fun ms => .object (Object.insertAll [] ms)
  | .brokenNull fault | .brokenWord fault | .brokenNumber fault | .cut fault => .error fault

/-- The values of the items. -/
def Items.values (depth : Nat) : Items → Except Fault (List Value)
  | .done ending => do
    Fault.raise ending.itemFault
    return []
  | .item head tail => do
    let v ← head.value depth
    let vs ← tail.values depth
    return v :: vs

/-- The names and values of the members. -/
def Members.values (depth : Nat) : Members → Except Fault (List (String × Value))
  | .done ending => do
    Fault.raise ending.memberFault
    return []
  | .member name value tail => do
    let n ← name.text
    let v ← value.value depth
    let ms ← tail.values depth
    return (n, v) :: ms

end

/-! ## Passing over a value -/

/-- The fault of items that are passed over: a comma asks for a value. -/
def Ending.skippedItemFault : Ending → Option Fault
  | .trailingComma => some .expectedValue
  | ending => ending.itemFault

/-- The fault of members that are passed over: a comma asks for a name. -/
def Ending.skippedMemberFault : Ending → Option Fault
  | .trailingComma => some .nameNotString
  | .openComma => some .endInObject
  | ending => ending.memberFault

mutual

/-- Pass over a document. Only its form counts: neither the range of numbers nor the pairing of
surrogates nor the depth is looked at, and a number that breaks off at the end of the text is as
wrong as one that breaks off before. -/
def Document.skip : Document → Except Fault Unit
  | .null | .bool _ | .number _ => .ok ()
  | .string l => l.ending.check
  | .array items => items.skip
  | .object members => members.skip
  | .brokenNumber _ => .error .invalidNumber
  | .brokenNull fault | .brokenWord fault | .cut fault => .error fault

/-- Pass over the items. -/
def Items.skip : Items → Except Fault Unit
  | .done ending => Fault.raise ending.skippedItemFault
  | .item head tail => do
    head.skip
    tail.skip

/-- Pass over the members. -/
def Members.skip : Members → Except Fault Unit
  | .done ending => Fault.raise ending.skippedMemberFault
  | .member name value tail => do
    name.ending.check
    value.skip
    tail.skip

end

/-! ## Values of texts -/

/-- What is read from a whole text: nothing but blanks may stand behind the document. -/
def readAll {ε α : Type} (fault : Fault → ε) (decode : Document → Except ε α) (text : Bytes) :
    Except ε α := do
  let (document, left) := Document.read text
  let result ← decode document
  match left.map Document.skipBlanks with
  | some (_ :: _) => .error (fault .trailingCharacters)
  | _ => .ok result

/-- The value of a JSON text. -/
def parse (text : Bytes) : Except Fault Value :=
  readAll id (Document.value Document.maxDepth) text

end Json

end WebToken
