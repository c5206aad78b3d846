import SwiftLens.Number.Double

/-!
# Shortest decimals

The shortest decimal of a positive double is the decimal with the fewest digits among those that
round to it; of several with equally few digits it is the one nearest to the double, and of two
equally near the one with the even last digit. The search is exact: the decimals that round to the
double are those of an interval whose ends are ratios of natural numbers, and on each grid of
decimals only the two neighbours of the double have to be tried.
-/

namespace SwiftLens

/-- A positive decimal `0.d₁d₂…dₖ * 10 ^ point`: its digits and the place of the decimal point
relative to the first digit. -/
structure Decimal where
  digits : List Nat
  point : Int
  deriving DecidableEq, Repr

namespace Decimal

/-- A positive double written over one denominator, with the ends of the interval of reals that
round to it and whether the ends belong to it. -/
structure Interval where
  low : Nat
  value : Nat
  high : Nat
  den : Nat
  closed : Bool

/-- The interval of the reals that round to the positive finite double `m * 2 ^ e`. Below a power
of two the neighbouring doubles are half as far away. -/
def Interval.of (x : Double) : Interval :=
  let m := x.significand
  let e := x.exponent
  let below := if x.fraction = 0 ∧ 1 < x.biased then 4 * m - 1 else 4 * m - 2
  let num := if 0 ≤ e then 1 <<< e.natAbs else 1
  let den := if 0 ≤ e then 4 else 4 <<< e.natAbs
  ⟨below * num, 4 * m * num, (4 * m + 2) * num, den, m % 2 == 0⟩

/-- The number of decimal digits of `n`. -/
def digitCount (n : Nat) : Nat := (Nat.toDigits 10 n).length

/-- The integer `p` with `10 ^ (p - 1) ≤ num / den < 10 ^ p`. -/
def pointOf (num den : Nat) : Int :=
  if den ≤ num then digitCount (num / den) else 1 - (digitCount ((den + num - 1) / num - 1) : Int)

/-- Whether `d * 10 ^ scale` lies in the interval. -/
def Interval.contains (i : Interval) (d : Nat) (scale : Int) : Bool :=
  let num := if 0 ≤ scale then d * Nat.pow 10 scale.natAbs * i.den else d * i.den
  let unit := if 0 ≤ scale then 1 else Nat.pow 10 scale.natAbs
  if i.closed then i.low * unit ≤ num && num ≤ i.high * unit
  else i.low * unit < num && num < i.high * unit

/-- Of the two multiples of `10 ^ scale` around the value, the one to print, if one of them lies in
the interval: the nearer one, and of two equally near the even one. -/
def Interval.pick (i : Interval) (scale : Int) : Option Nat :=
  let num := if 0 ≤ scale then i.value else i.value * Nat.pow 10 scale.natAbs
  let den := if 0 ≤ scale then i.den * Nat.pow 10 scale.natAbs else i.den
  let d := num / den
  match i.contains d scale, i.contains (d + 1) scale with
  | true, true => some (Double.roundedQuotient num den)
  | true, false => some d
  | false, true => some (d + 1)
  | false, false => none

/-- The first grid, from `count` digits on, that has a point in the interval. -/
def Interval.search (i : Interval) (point : Int) : Nat → Nat → Nat × Int
  | 0, count => (i.value / i.den, point - count)
  | fuel + 1, count =>
    match i.pick (point - count) with
    | some d => (d, point - count)
    | none => i.search point fuel (count + 1)

/-- The digits of `d` without trailing zeros. -/
def significantDigits (d : Nat) : List Nat :=
  ((Nat.toDigits 10 d).map fun c => c.toNat - 0x30).reverse.dropWhile (· == 0) |>.reverse

/-- The shortest decimal of a positive finite double. Seventeen digits always suffice. -/
def shortest (x : Double) : Decimal :=
  let i := Interval.of x
  let (d, scale) := i.search (pointOf i.value i.den) 17 1
  ⟨significantDigits d, digitCount d + scale⟩

end Decimal

end SwiftLens
