import RuleFlow.Number.Double

/-!
# The shortest decimal of a double

`Double.shortest` gives the decimal with the fewest digits that reads back as the given double
under correct rounding, of those the nearest, and of two equally near the one with the even last
digit. `Decimal.render` writes a decimal in the style of a `DecimalStyle`.
-/

namespace RuleFlow

/-- The decimal `digits · 10 ^ exponent`. -/
structure Decimal where
  /-- The digits as a natural number. -/
  digits : Nat
  /-- The power of ten of the last digit. -/
  exponent : Int
  deriving DecidableEq

/-! ## Grids of decimals -/

namespace Double

/-- The reals that round to a positive double, and the double itself, as quarters of the last bit:
they lie between `low` and `high`, and the ends belong to them when the significand is even. -/
structure Interval where
  low : Nat
  mid : Nat
  high : Nat
  /-- Whether the ends round to the double. -/
  closed : Bool

/-- The interval of a double. Below the first significand of a binade the gap is half as wide. -/
def interval (x : Double) : Interval :=
  let narrow := x.significand = twoTo 52 ∧ -1074 < x.exponent
  { low := 4 * x.significand - if narrow then 1 else 2
    mid := 4 * x.significand
    high := 4 * x.significand + 2
    closed := x.significand % 2 = 0 }

/-- Factors `(a, b)` such that `n · 10 ^ grid` is to `k` quarters of the last bit as `n · a` is to
`k · b`. -/
def gridFactors (x : Double) (grid : Int) : Nat × Nat :=
  (4 * tenTo grid.toNat * twoTo (-x.exponent).toNat, tenTo (-grid).toNat * twoTo x.exponent.toNat)

/-- The point of the grid of multiples of `10 ^ grid` that reads back as the positive double `x`
and is nearest to it. -/
def onGrid? (x : Double) (grid : Int) : Option Nat :=
  let i := x.interval
  let (a, b) := x.gridFactors grid
  let inside (n : Nat) : Bool :=
    if i.closed then i.low * b ≤ n * a && n * a ≤ i.high * b
    else i.low * b < n * a && n * a < i.high * b
  let below := i.mid * b / a
  match inside below, inside (below + 1) with
  | true, true =>
    let down := i.mid * b - below * a
    let up := (below + 1) * a - i.mid * b
    if down < up ∨ (down = up ∧ below % 2 = 0) then some below else some (below + 1)
  | true, false => some below
  | false, true => some (below + 1)
  | false, false => none

/-- The first hit on the grids from `10 ^ grid` down, on at most `fuel` finer ones. -/
def firstHit (x : Double) : (fuel : Nat) → (grid : Int) → Decimal
  | 0, grid => ⟨(x.onGrid? grid).getD 0, grid⟩
  | fuel + 1, grid =>
    match x.onGrid? grid with
    | some n => ⟨n, grid⟩
    | none => firstHit x fuel (grid - 1)

/-- A grid at or above the double's own decimal exponent, by three decimals of `log₁₀ 2`. -/
def topGrid (x : Double) : Int :=
  (((x.significand.log2 : Int) + x.exponent) * 30103).fdiv 100000 + 1

/-- The shortest decimal of a positive double. Seventeen digits always suffice, so that twenty
grids from the top one hold a hit. -/
def shortest (x : Double) : Decimal := x.firstHit 20 x.topGrid

end Double

/-! ## Writing decimals -/

structure DecimalStyle where
  /-- The least decimal exponent written without an exponent part. -/
  plainFrom : Int
  /-- The greatest decimal exponent written without an exponent part. -/
  plainTo : Int
  integralEnd : String
  positiveMark : String
  negativeMark : String

namespace Decimal

/-- Writes digits with the point after the first `places + 1` of them; a negative count of places
puts zeros in front. -/
def plain (style : DecimalStyle) (digits : List Char) (places : Int) : String :=
  if places < 0 then
    "0." ++ String.ofList (List.replicate (-places - 1).toNat '0' ++ digits)
  else
    let whole := places.toNat + 1
    if digits.length ≤ whole then
      String.ofList (digits ++ List.replicate (whole - digits.length) '0') ++ style.integralEnd
    else
      String.ofList (digits.take whole) ++ "." ++ String.ofList (digits.drop whole)

/-- Writes digits with the point after the first of them and an exponent part. -/
def scientific (style : DecimalStyle) (digits : List Char) (places : Int) : String :=
  let mantissa :=
    match digits with
    | first :: second :: more => String.ofList (first :: '.' :: second :: more)
    | short => String.ofList short
  let mark := if places < 0 then style.negativeMark else style.positiveMark
  mantissa ++ mark ++ String.ofList (Nat.toDigits 10 places.natAbs)

def significantDigits (d : Decimal) : List Char :=
  ((Nat.toDigits 10 d.digits).reverse.dropWhile (· == '0')).reverse

def leadingPlace (d : Decimal) : Int := d.exponent + (Nat.toDigits 10 d.digits).length - 1

def render (style : DecimalStyle) (d : Decimal) : String :=
  let digits := d.significantDigits
  let places := d.leadingPlace
  if style.plainFrom ≤ places ∧ places ≤ style.plainTo then plain style digits places
  else scientific style digits places

end Decimal

namespace Double

def render (style : DecimalStyle) (x : Double) : String :=
  let sign := if x.negative then "-" else ""
  sign ++ if x.significand = 0 then Decimal.plain style ['0'] 0 else x.shortest.render style

end Double

end RuleFlow
