/-!
# What is wrong with a JSON text

The reasons for which a reader stops in the middle of a text, with their wording.
-/

namespace WebToken

namespace Json

/-- Why a JSON text cannot be read. -/
inductive Fault where
  /-- The text ends where a value, or the rest of one, should stand. -/
  | endInValue
  | endInList
  | endInObject
  | endInString
  | expectedColon
  | expectedListEnd
  | expectedObjectEnd
  /-- A broken `null`, `true` or `false`. -/
  | expectedWord
  | expectedValue
  | nameNotString
  | invalidEscape
  | invalidNumber
  | numberOutOfRange
  /-- A string that is not UTF-8. -/
  | invalidCodePoint
  | controlCharacter
  | loneSurrogate
  /-- A high surrogate without a second escape. -/
  | unfinishedSurrogate
  | trailingComma
  | trailingCharacters
  | nestedTooDeep
  deriving Repr, DecidableEq

/-- The wording of a fault. -/
def Fault.message : Fault → String
  | .endInValue => "EOF while parsing a value"
  | .endInList => "EOF while parsing a list"
  | .endInObject => "EOF while parsing an object"
  | .endInString => "EOF while parsing a string"
  | .expectedColon => "expected `:`"
  | .expectedListEnd => "expected `,` or `]`"
  | .expectedObjectEnd => "expected `,` or `\x7d`"
  | .expectedWord => "expected ident"
  | .expectedValue => "expected value"
  | .nameNotString => "key must be a string"
  | .invalidEscape => "invalid escape"
  | .invalidNumber => "invalid number"
  | .numberOutOfRange => "number out of range"
  | .invalidCodePoint => "invalid unicode code point"
  | .controlCharacter => "control character (\\u0000-\\u001F) found while parsing a string"
  | .loneSurrogate => "lone leading surrogate in hex escape"
  | .unfinishedSurrogate => "unexpected end of hex escape"
  | .trailingComma => "trailing comma"
  | .trailingCharacters => "trailing characters"
  | .nestedTooDeep => "recursion limit exceeded"

end Json

end WebToken
