import WebToken.Json.Value
import WebToken.Decimal.Shortest
import WebToken.Bytes

/-!
# Compact JSON text

A value is written without blanks, the members of an object in their order. In a string only the
quote, the backslash and the characters below the space are escaped; a double is written with the
fewest digits that read back.
-/

namespace WebToken

namespace Json

/-- A digit in base sixteen, lower case. -/
def hexChar (n : Nat) : Char := Nat.digitChar (n % 16)

/-- One character as it stands in a string literal. -/
def escapedChar (c : Char) : List Char :=
  if c = '"' then ['\\', '"']
  else if c = '\\' then ['\\', '\\']
  else if c.toNat = 0x08 then ['\\', 'b']
  else if c.toNat = 0x09 then ['\\', 't']
  else if c.toNat = 0x0A then ['\\', 'n']
  else if c.toNat = 0x0C then ['\\', 'f']
  else if c.toNat = 0x0D then ['\\', 'r']
  else if c.toNat < 0x20 then
    ['\\', 'u', '0', '0', hexChar (c.toNat / 16), hexChar c.toNat]
  else [c]

/-- A string literal. -/
def stringChars (s : String) : List Char :=
  '"' :: s.toList.flatMap escapedChar ++ ['"']

/-- A whole number. -/
def integerChars (n : Int) : List Char :=
  if n < 0 then '-' :: Nat.toDigits 10 n.natAbs else Nat.toDigits 10 n.natAbs

mutual

/-- The characters of a value. -/
def Value.chars : Value → List Char
  | .null => ['n', 'u', 'l', 'l']
  | .bool true => ['t', 'r', 'u', 'e']
  | .bool false => ['f', 'a', 'l', 's', 'e']
  | .integer n => integerChars n
  | .float x => x.toChars
  | .string s => stringChars s
  | .array [] => ['[', ']']
  | .array (v :: vs) => '[' :: v.chars ++ Value.itemsChars vs
  | .object [] => ['\x7b', '\x7d']
  | .object ((name, v) :: ms) =>
    '\x7b' :: stringChars name ++ ':' :: v.chars ++ Value.membersChars ms

/-- The items behind the first one, and the closing bracket. -/
def Value.itemsChars : List Value → List Char
  | [] => [']']
  | v :: vs => ',' :: v.chars ++ Value.itemsChars vs

/-- The members behind the first one, and the closing bracket. -/
def Value.membersChars : List (String × Value) → List Char
  | [] => ['\x7d']
  | (name, v) :: ms => ',' :: stringChars name ++ ':' :: v.chars ++ Value.membersChars ms

end

/-- The compact text of a value. -/
def Value.text (v : Value) : String := String.ofList v.chars

/-- The UTF-8 form of the compact text of a value. -/
def Value.encode (v : Value) : Bytes := Bytes.ofString v.text

/-- The compact text of an object. -/
def Object.text (o : Object) : String := (Value.object o).text

end Json

end WebToken
