/-!
# Double-precision numbers

The finite numbers `± m · 2 ^ e` with a mantissa of 53 bits, as exact data: rounding is done on
natural numbers, to the nearest value and from a tie to the even mantissa. A result beyond the
largest finite number is `none`.

* `Double.ofRatio` : the number nearest to a ratio of naturals;
* `Double.ofDecimal` : a significand times a power of ten, scaled in the one multiplication or
  division that the reader of a decimal text performs.
-/

namespace WebToken

/-- A finite double-precision number: `± mantissa · 2 ^ exponent`, with the mantissa in
`[2 ^ 52, 2 ^ 53)`, or below and the exponent at its least value `-1074`. -/
structure Double where
  negative : Bool
  mantissa : Nat
  exponent : Int
  deriving Repr, DecidableEq

namespace Double

/-- The least exponent: that of the subnormal numbers. -/
def minExponent : Int := -1074

/-- The greatest exponent of a finite number. -/
def maxExponent : Int := 971

/-- Positive zero. -/
def zero : Double := ⟨false, 0, minExponent⟩

/-- Whether the number is a zero of either sign. -/
def isZero (x : Double) : Bool := x.mantissa == 0

/-- The number with the sign given. -/
def withSign (negative : Bool) (x : Double) : Double := { x with negative }

/-- Whether two numbers denote the same value: the zeros of both signs do. -/
def sameValue (x y : Double) : Bool :=
  x = y || (x.isZero && y.isZero)

/-! ## Rounding -/

/-- The quotient rounded to the nearest natural number, from a tie to the even one. -/
def roundDiv (num den : Nat) : Nat :=
  let q := num / den
  let r := num % den
  if den < 2 * r ∨ (2 * r = den ∧ q % 2 = 1) then q + 1 else q

/-- The numerator and denominator of `num / (den · 2 ^ e)`. -/
def shifted (num den : Nat) (e : Int) : Nat × Nat :=
  if 0 ≤ e then (num, den <<< e.toNat) else (num <<< (-e).toNat, den)

/-- The exponent at which `num / den` has a mantissa of 53 bits, or the least exponent. -/
def exponentOf (num den : Nat) : Int :=
  let guess : Int := (num.log2 : Int) - (den.log2 : Int) - 52
  -- the quotient of the logarithms is at most one too large
  let (n, d) := shifted num den guess
  let exact := if n < d <<< 52 then guess - 1 else guess
  max exact minExponent

/-- The number nearest to `num / den`, or `none` beyond the largest finite number. -/
def ofRatio (num den : Nat) : Option Double :=
  let e := exponentOf num den
  let (n, d) := shifted num den e
  let m := roundDiv n d
  let (m, e) := if m = 1 <<< 53 then (1 <<< 52, e + 1) else (m, e)
  if m = 0 then some zero
  else if maxExponent < e then none
  else some ⟨false, m, e⟩

/-- The magnitude as a ratio of naturals. -/
def toRatio (x : Double) : Nat × Nat :=
  if 0 ≤ x.exponent then (x.mantissa <<< x.exponent.toNat, 1)
  else (x.mantissa, 1 <<< (-x.exponent).toNat)

/-! ## Decimal scaling -/

/-- The number nearest to `10 ^ k`, for `k` up to 308. -/
def powerOfTen (k : Nat) : Double :=
  (ofRatio (Nat.pow 10 k) 1).getD zero

/-- The rounded product of two magnitudes. -/
def mul (x y : Double) : Option Double :=
  let (a, b) := x.toRatio
  let (c, d) := y.toRatio
  ofRatio (a * c) (b * d)

/-- The rounded quotient of two magnitudes, the second not zero. -/
def div (x y : Double) : Option Double :=
  let (a, b) := x.toRatio
  let (c, d) := y.toRatio
  ofRatio (a * d) (b * c)

/-- The greatest power of ten that is a finite number. -/
def maxPower : Nat := 308

/-- A magnitude divided by `10 ^ k`: once if that is a finite number, else in steps of the
greatest power until nothing is left. -/
def divPower (x : Double) (k : Nat) : Double :=
  if k ≤ maxPower then (x.div (powerOfTen k)).getD zero
  else if x.isZero then x
  else divPower ((x.div (powerOfTen maxPower)).getD zero) (k - maxPower)
termination_by k
decreasing_by simp only [maxPower] at *; omega

/-- `± significand · 10 ^ exponent`: the significand is rounded first and then scaled. A result
that is too large is `none`. -/
def ofDecimal (negative : Bool) (significand : Nat) (exponent : Int) : Option Double := do
  let x ← ofRatio significand 1
  if 0 ≤ exponent then
    if exponent.toNat ≤ maxPower then
      return (← x.mul (powerOfTen exponent.toNat)).withSign negative
    else if x.isZero then
      return x.withSign negative
    else
      none
  else
    return (x.divPower (-exponent).toNat).withSign negative

end Double

end WebToken
