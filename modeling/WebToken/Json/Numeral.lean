import WebToken.Json.Value
import WebToken.Json.Fault
import WebToken.Bytes

/-!
# Numerals

A numeral is read as it is written: a sign, the digits before and after the point, and a power of
ten. What it denotes is decided afterwards, so that a reader which skips a value can pass over a
number that is out of range.

A whole number of at most 64 bits denotes itself. Anything else denotes a double: its digits are
gathered in 64 bits as far as they fit, and the significand gathered is scaled once. Digits before
the point that do not fit count as zeros, and digits after it are dropped.
-/

namespace WebToken

namespace Json

/-- A number as it is written. -/
structure Numeral where
  negative : Bool
  /-- The digits before the point. -/
  whole : List Nat
  /-- The digits after the point, if there is one. -/
  fraction : Option (List Nat)
  /-- The power of ten, if one is written. -/
  power : Option Int
  deriving Repr, DecidableEq

namespace Numeral

/-! ## Reading -/

/-- The number that a decimal digit stands for. -/
def digit? (b : UInt8) : Option Nat :=
  if 48 ≤ b ∧ b ≤ 57 then some (b.toNat - 48) else none

/-- The digits at the front of a text, and what stands behind them. -/
def digits : Bytes → List Nat × Bytes
  | [] => ([], [])
  | b :: rest =>
    match digit? b with
    | some d => let (ds, left) := digits rest; (d :: ds, left)
    | none => ([], b :: rest)

/-- The fault of a text in which a digit is missing. -/
def missingDigit : Bytes → Fault
  | [] => .endInValue
  | _ => .invalidNumber

/-- The number that digits spell. -/
def ofDigits (ds : List Nat) : Nat := ds.foldl (fun n d => 10 * n + d) 0

/-- The digits before the point: one zero, or digits that do not begin with zero. -/
def readWhole (text : Bytes) : Except Fault (List Nat × Bytes) :=
  match digits text with
  | ([], left) => .error (missingDigit left)
  | (0 :: _ :: _, _) => .error .invalidNumber
  | (ds, left) => .ok (ds, left)

/-- The point and at least one digit, if a point stands there. -/
def readFraction : Bytes → Except Fault (Option (List Nat) × Bytes)
  | 0x2E :: rest =>
    match digits rest with
    | ([], left) => .error (missingDigit left)
    | (ds, left) => .ok (some ds, left)
  | text => .ok (none, text)

/-- The sign of a power of ten: plus if none is written. -/
def readSign : Bytes → Bool × Bytes
  | 0x2B :: rest => (false, rest)
  | 0x2D :: rest => (true, rest)
  | text => (false, text)

/-- The power of ten, if one is written. -/
def readPower : Bytes → Except Fault (Option Int × Bytes)
  | [] => .ok (none, [])
  | b :: rest =>
    if b = 0x65 ∨ b = 0x45 then
      let (negative, rest) := readSign rest
      match digits rest with
      | ([], left) => .error (missingDigit left)
      | (ds, left) =>
        let n : Int := ofDigits ds
        .ok (some (if negative then -n else n), left)
    else .ok (none, b :: rest)

/-- The numeral at the front of a text, and what stands behind it. -/
def read (text : Bytes) : Except Fault (Numeral × Bytes) := do
  let (negative, text) := match text with
    | 0x2D :: rest => (true, rest)
    | text => (false, text)
  let (whole, text) ← readWhole text
  let (fraction, text) ← readFraction text
  let (power, text) ← readPower text
  return (⟨negative, whole, fraction, power⟩, text)

/-! ## What a numeral denotes -/

/-- The digits gathered in 64 bits after `n`: the number reached, and the digits left over from
the first one on that does not fit. -/
def gather (n : Nat) : List Nat → Nat × List Nat
  | [] => (n, [])
  | d :: ds => if 10 * n + d < 0x10000000000000000 then gather (10 * n + d) ds else (n, d :: ds)

/-- The double that a numeral denotes, if it is in range. -/
def toDouble? (x : Numeral) : Option Double :=
  let (n, excess) := gather 0 x.whole
  let after := x.fraction.getD []
  let (n, dropped) := gather n after
  let exponent : Int := (excess.length : Int) - ((after.length : Int) - (dropped.length : Int))
  Double.ofDecimal x.negative n (exponent + x.power.getD 0)

/-- The whole number that a numeral denotes, if it is written as one and fits 64 bits. -/
def toInteger? (x : Numeral) : Option Int :=
  if x.fraction.isSome ∨ x.power.isSome then none
  else
    let n := ofDigits x.whole
    if x.negative then (if 0 < n ∧ n ≤ 0x8000000000000000 then some (-n) else none)
    else (if n < 0x10000000000000000 then some n else none)

/-- The value that a numeral denotes. -/
def value (x : Numeral) : Except Fault Value :=
  match x.toInteger? with
  | some n => .ok (.integer n)
  | none =>
    match x.toDouble? with
    | some d => .ok (.float d)
    | none => .error .numberOutOfRange

end Numeral

end Json

end WebToken
