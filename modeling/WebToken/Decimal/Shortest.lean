import WebToken.Decimal.Double

/-!
# Shortest decimal text

Of the decimals that read back as a double-precision number, the text shows one with the fewest
digits, and of those the one nearest to the number. The search tries one digit, two digits and so
on, and looks at the two neighbours of the number on each decimal grid: if any point of a grid
reads back, so does one of these two.

Where the point stands is a matter of layout: plain notation with at least one digit after the
point for magnitudes from `1e-5` up to `1e16`, and scientific notation beyond.
-/

namespace WebToken

namespace Double

/-! ## The digits -/

/-- A decimal `digits · 10 ^ scale`. -/
structure Decimal where
  digits : Nat
  scale : Int
  deriving Repr, DecidableEq

/-- The ends of the interval of reals that round to a magnitude, and the magnitude itself between
them, over one denominator. The interval below a power of two is half as wide as above it. -/
def interval (x : Double) : Nat × Nat × Nat × Nat :=
  let atPower := x.mantissa = 1 <<< 52 ∧ minExponent < x.exponent
  let low := if atPower then 4 * x.mantissa - 1 else 4 * x.mantissa - 2
  let scale (k : Nat) : Nat := if 0 ≤ x.exponent then k <<< x.exponent.toNat else k
  let den := if 0 ≤ x.exponent then 4 else 4 <<< (-x.exponent).toNat
  (scale low, scale (4 * x.mantissa), scale (4 * x.mantissa + 2), den)

/-- Whether `num / den` rounds to the magnitude: the ends of the interval do exactly if the
mantissa is even. -/
def roundsTo (x : Double) (num den : Nat) : Bool :=
  let (low, _, high, d) := x.interval
  if x.mantissa % 2 = 0 then low * den ≤ num * d && num * d ≤ high * den
  else low * den < num * d && num * d < high * den

/-- The neighbour on the grid `10 ^ scale` that rounds to the magnitude, the nearer if both do. -/
def onGrid? (x : Double) (scale : Int) : Option Decimal :=
  let (num, den) := x.toRatio
  let power := Nat.pow 10 scale.natAbs
  let (num, den) := if 0 ≤ scale then (num, den * power) else (num * power, den)
  let below := num / den
  let reads (d : Nat) : Bool :=
    if 0 ≤ scale then x.roundsTo (d * power) 1 else x.roundsTo d power
  let rest := num % den
  let order := if 2 * rest < den ∨ (2 * rest = den ∧ below % 2 = 0)
    then [below, below + 1] else [below + 1, below]
  (order.find? reads).map fun digits => ⟨digits, scale⟩

/-- The power of ten just above a magnitude that is not zero. -/
def magnitude (x : Double) : Int :=
  let (num, den) := x.toRatio
  if den ≤ num then (Nat.toDigits 10 (num / den)).length
  else
    -- count the zeros after the point
    1 - ((Nat.toDigits 10 (den / num)).length : Int)
      + (if den % num = 0 ∧ (Nat.toDigits 10 (den / num)).tail.all (· == '0') then 1 else 0)

/-- The shortest decimal, searched over grids of `count` digits and more. -/
def shortestFrom (x : Double) (count : Nat) : Nat → Decimal
  | 0 => ⟨x.mantissa, 0⟩
  | fuel + 1 =>
    match x.onGrid? (x.magnitude - (count : Int)) with
    | some d => d
    | none => shortestFrom x (count + 1) fuel

/-- The decimal without the zeros at its end. -/
def Decimal.strip : Nat → Decimal → Decimal
  | 0, d => d
  | fuel + 1, d =>
    if d.digits ≠ 0 ∧ d.digits % 10 = 0 then Decimal.strip fuel ⟨d.digits / 10, d.scale + 1⟩ else d

/-- The shortest decimal that reads back as the magnitude; seventeen digits always do. -/
def shortest (x : Double) : Decimal :=
  (x.shortestFrom 1 17).strip 20

/-! ## The text -/

/-- Where plain notation ends: the least and greatest place of the point, counted from the first
digit. -/
structure Layout where
  least : Int
  greatest : Int
  deriving Repr

/-- Numbers are plain from `1e-5` up to `1e16`. -/
def layout : Layout := ⟨-4, 16⟩

/-- The text of digits whose point stands `point` places after the first digit begins. -/
def place (style : Layout) (digits : List Char) (point : Int) : List Char :=
  let count : Int := digits.length
  if style.least ≤ point ∧ point ≤ style.greatest then
    if count ≤ point then
      digits ++ List.replicate (point - count).toNat '0' ++ ['.', '0']
    else if 0 < point then
      digits.take point.toNat ++ '.' :: digits.drop point.toNat
    else
      '0' :: '.' :: List.replicate (-point).toNat '0' ++ digits
  else
    let power := point - 1
    let sign := if power < 0 then '-' else '+'
    let body := match digits with
      | [] => []
      | [d] => [d]
      | d :: rest => d :: '.' :: rest
    body ++ 'e' :: sign :: Nat.toDigits 10 power.natAbs

/-- The shortest text that reads back as the number. -/
def toChars (x : Double) : List Char :=
  let body :=
    if x.isZero then ['0', '.', '0']
    else
      let d := x.shortest
      let digits := Nat.toDigits 10 d.digits
      place layout digits (digits.length + d.scale)
  if x.negative then '-' :: body else body

end Double

end WebToken
