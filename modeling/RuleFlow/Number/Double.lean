/-!
# Finite double-precision numbers

A finite binary64 value is a sign and a magnitude `significand · 2 ^ exponent`. `ofRatio?` rounds a
ratio of natural numbers to the nearest such value, ties to the even significand, and
`ofScientific?` reads a decimal literal with it. All arithmetic is on natural numbers.
-/

namespace RuleFlow

/-- A finite binary64 value in its one canonical form: `significand < 2 ^ 53`, the exponent at least
`-1074`, and the significand at least `2 ^ 52` unless the exponent is `-1074`. -/
structure Double where
  /-- Whether the sign bit is set, also on a zero. -/
  negative : Bool
  significand : Nat
  exponent : Int
  deriving DecidableEq

namespace Double

def twoTo (k : Nat) : Nat := Nat.pow 2 k

def tenTo (k : Nat) : Nat := Nat.pow 10 k

def zero (negative : Bool) : Double := ⟨negative, 0, -1074⟩

/-- Equality of values: the two zeros are equal, all else goes by the canonical form. -/
def sameValue (x y : Double) : Bool :=
  (x.significand == 0 && y.significand == 0) || x == y

/-! ## Rounding -/

/-- `numerator / denominator` to the nearest natural number, ties to the even one. -/
def divNearest (numerator denominator : Nat) : Nat :=
  let quotient := numerator / denominator
  let twice := 2 * (numerator % denominator)
  if twice < denominator then quotient
  else if twice = denominator ∧ quotient % 2 = 0 then quotient
  else quotient + 1

/-- The pair `(numerator, denominator)` divided by `2 ^ exponent`. -/
def scaleByPowerOfTwo (numerator denominator : Nat) (exponent : Int) : Nat × Nat :=
  (numerator * twoTo (-exponent).toNat, denominator * twoTo exponent.toNat)

/-- The exponent at which a positive ratio has a 53-bit significand, or `-1074` if that is more. -/
def exponentOf (numerator denominator : Nat) : Int :=
  let guess : Int := (numerator.log2 : Int) - denominator.log2 - 52
  let scaled := scaleByPowerOfTwo numerator denominator guess
  max (-1074) (if scaled.1 / scaled.2 < twoTo 52 then guess - 1 else guess)

/-- The double nearest to `numerator / denominator`, or none if that is beyond the largest. -/
def ofRatio? (negative : Bool) (numerator denominator : Nat) : Option Double :=
  if numerator = 0 then some (zero negative) else
    let exponent := exponentOf numerator denominator
    let scaled := scaleByPowerOfTwo numerator denominator exponent
    let significand := divNearest scaled.1 scaled.2
    let rounded : Double :=
      if significand = twoTo 53 then ⟨negative, twoTo 52, exponent + 1⟩
      else ⟨negative, significand, exponent⟩
    if 971 < rounded.exponent then none else some rounded

def toRatio (x : Double) : Nat × Nat :=
  (x.significand * twoTo x.exponent.toNat, twoTo (-x.exponent).toNat)

/-! ## Products and quotients with powers of ten -/

def mulPowerOfTen? (x : Double) (k : Nat) : Option Double := do
  let power ← ofRatio? false (tenTo k) 1
  let (a, b) := x.toRatio
  let (c, d) := power.toRatio
  ofRatio? x.negative (a * c) (b * d)

def divPowerOfTen? (x : Double) (k : Nat) : Option Double := do
  let power ← ofRatio? false (tenTo k) 1
  let (a, b) := x.toRatio
  let (c, d) := power.toRatio
  ofRatio? x.negative (a * d) (b * c)

/-- The quotient by `10 ^ k`, taken in steps of at most `10 ^ 308`, which is the largest power of
ten that is a double. -/
def shrink? (x : Double) (k : Nat) : Option Double :=
  if x.significand = 0 then some x
  else if k ≤ 308 then x.divPowerOfTen? k
  else do (← x.divPowerOfTen? 308).shrink? (k - 308)
termination_by k

/-- Reads `± significand · 10 ^ exponent`: the significand is rounded first, and each scaling by a
power of ten rounds once more. None if the result is beyond the largest double. -/
def ofScientific? (negative : Bool) (significand : Nat) (exponent : Int) : Option Double := do
  let x ← ofRatio? negative significand 1
  if x.significand = 0 then some x
  else if exponent < 0 then x.shrink? (-exponent).toNat
  else if exponent ≤ 308 then x.mulPowerOfTen? exponent.toNat
  else none

end Double

end RuleFlow
