import WebToken.Bytes

/-!
# Random identifiers

An identifier is made of sixteen random bytes, of which six bits say that it is a random one, and
is written in five groups of hexadecimal digits.
-/

namespace WebToken

namespace Uuid

/-- Two hexadecimal digits, lower case. -/
def hexByte (b : UInt8) : List Char := [Nat.digitChar (b.toNat / 16), Nat.digitChar (b.toNat % 16)]

/-- The bytes with the bits that say that they are random: `0100` begins byte six and `10` byte
eight. -/
def marked (random : Vector UInt8 16) : Vector UInt8 16 :=
  (random.set 6 ((random[6] &&& 0x0F) ||| 0x40)).set 8 ((random[8] &&& 0x3F) ||| 0x80)

/-- The groups of digits, separated by hyphens. -/
def text (random : Vector UInt8 16) : String :=
  let bytes := (marked random).toList
  let group := fun start count => String.ofList (((bytes.drop start).take count).flatMap hexByte)
  "-".intercalate [group 0 4, group 4 2, group 6 2, group 8 2, group 10 6]

end Uuid

end WebToken
