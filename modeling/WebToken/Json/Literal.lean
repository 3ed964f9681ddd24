import WebToken.Bytes
import WebToken.Json.Fault

/-!
# String literals

A string literal is read in two steps. The first cuts it into pieces: bytes, and the 16-bit units
that `\u` escapes give. It stops at the closing quote or at the first thing that can stand in no
literal. The second step joins surrogate units into characters and checks that the bytes are
UTF-8. A reader that skips a value takes the first step only.
-/

namespace WebToken

namespace Json

/-- A piece of a string literal. -/
inductive Piece where
  /-- A byte, written as itself or as a short escape. -/
  | byte (b : UInt8)
  /-- A 16-bit unit, written as four digits in base sixteen. -/
  | unit (u : Nat)
  deriving Repr, DecidableEq

/-- Where the pieces of a literal end. -/
inductive Literal.Ending where
  /-- At the closing quote. -/
  | closed
  /-- At the end of the text. -/
  | endOfText
  /-- At a control character. -/
  | control
  /-- At a backslash that begins no escape. -/
  | escape
  /-- At a `\u` without four digits. -/
  | digits
  deriving Repr, DecidableEq

/-- A string literal as far as it can be cut into pieces. -/
structure Literal where
  pieces : List Piece
  ending : Literal.Ending
  deriving Repr, DecidableEq

namespace Literal

/-! ## Cutting into pieces -/

def quote : UInt8 := 0x22
def backslash : UInt8 := 0x5C

/-- The byte that a short escape stands for. -/
def escaped? (b : UInt8) : Option UInt8 :=
  if b = quote ∨ b = backslash ∨ b = 0x2F then some b
  else if b = 0x62 then some 0x08
  else if b = 0x66 then some 0x0C
  else if b = 0x6E then some 0x0A
  else if b = 0x72 then some 0x0D
  else if b = 0x74 then some 0x09
  else none

/-- The number that a digit in base sixteen stands for. -/
def hexDigit? (b : UInt8) : Option Nat :=
  let n := b.toNat
  if 48 ≤ n ∧ n ≤ 57 then some (n - 48)
  else if 65 ≤ n ∧ n ≤ 70 then some (n - 55)
  else if 97 ≤ n ∧ n ≤ 102 then some (n - 87)
  else none

/-- The unit that four digits in base sixteen give. -/
def unit? (a b c d : UInt8) : Option Nat := do
  return (← hexDigit? a) * 4096 + (← hexDigit? b) * 256 + (← hexDigit? c) * 16 + (← hexDigit? d)

/-- The literal with a piece put in front. -/
def cons (p : Piece) (l : Literal) : Literal := { l with pieces := p :: l.pieces }

/-- The literal that stands after an opening quote, and the text behind it. -/
def read : Bytes → Literal × Bytes
  | [] => (⟨[], .endOfText⟩, [])
  | b :: rest =>
    if b = quote then (⟨[], .closed⟩, rest)
    else if b = backslash then
      match rest with
      | [] => (⟨[], .endOfText⟩, [])
      | 0x75 :: w :: x :: y :: z :: rest =>
        match unit? w x y z with
        | some u => let (l, left) := read rest; (l.cons (.unit u), left)
        | none => (⟨[], .digits⟩, [])
      | e :: rest =>
        if e = 0x75 then (⟨[], .endOfText⟩, [])
        else
          match escaped? e with
          | some c => let (l, left) := read rest; (l.cons (.byte c), left)
          | none => (⟨[], .escape⟩, [])
    else if b < 0x20 then (⟨[], .control⟩, [])
    else let (l, left) := read rest; (l.cons (.byte b), left)

/-! ## Joining the pieces -/

/-- The fault that the end of a literal is. -/
def Ending.check : Ending → Except Fault Unit
  | .closed => .ok ()
  | .endOfText => .error .endInString
  | .control => .error .controlCharacter
  | .escape => .error .invalidEscape
  | .digits => .error .invalidEscape

/-- The fault of a literal whose last piece is a high surrogate. -/
def Ending.afterHighSurrogate : Ending → Fault
  | .endOfText => .endInString
  | .digits => .invalidEscape
  | _ => .unfinishedSurrogate

/-- Whether a unit is the first half of a pair. -/
def isHighSurrogate (u : Nat) : Bool := 0xD800 ≤ u && u ≤ 0xDBFF

/-- Whether a unit is the second half of a pair. -/
def isLowSurrogate (u : Nat) : Bool := 0xDC00 ≤ u && u ≤ 0xDFFF

/-- The code point of a pair of surrogates. -/
def joined (high low : Nat) : Nat := (high - 0xD800) * 0x400 + (low - 0xDC00) + 0x10000

/-- The UTF-8 form of a code point. -/
def utf8 (code : Nat) : Bytes := String.utf8EncodeChar (Char.ofNat code)

/-- The bytes that pieces spell. -/
def bytesOf (ending : Ending) : List Piece → Except Fault Bytes
  | [] => ending.check.map fun _ => []
  | .byte b :: rest => (bytesOf ending rest).map (b :: ·)
  | .unit u :: rest =>
    if isLowSurrogate u then .error .loneSurrogate
    else if isHighSurrogate u then
      match rest with
      | [] => .error ending.afterHighSurrogate
      | .byte _ :: _ => .error .unfinishedSurrogate
      | .unit v :: rest =>
        if isLowSurrogate v then (bytesOf ending rest).map (utf8 (joined u v) ++ ·)
        else .error .loneSurrogate
    else (bytesOf ending rest).map (utf8 u ++ ·)

/-- The text that a literal spells. -/
def text (l : Literal) : Except Fault String := do
  match Bytes.toString? (← bytesOf l.ending l.pieces) with
  | some s => .ok s
  | none => .error .invalidCodePoint

/-- Whether the literal is closed. -/
def isClosed (l : Literal) : Bool := l.ending == .closed

end Literal

end Json

end WebToken
