import SwiftLens.Number.Double

/-!
# Arithmetic on doubles

Every finite double is an integer multiple of the least positive one. Sums, differences, comparisons
and integer parts are therefore those of integers, and a sum is rounded once, when it becomes a double
again.
-/

namespace SwiftLens.Double

/-- The power of two of the denominator that all finite doubles have in common. -/
def unitPlaces : Nat := 1074

/-- The integer `n` with `x = n * 2 ^ (-1074)`, for a finite `x`. -/
def units (x : Double) : Int :=
  let n : Int := (x.significand <<< (x.exponent + unitPlaces).toNat : Nat)
  if x.isNegative then -n else n

/-- The double nearest to `n * 2 ^ (-1074)`. -/
def ofUnits (n : Int) : Double := ofRatio (n < 0) n.natAbs (1 <<< unitPlaces)

/-- The double with the other sign. -/
def neg (x : Double) : Double := ofFields (!x.isNegative) x.biased x.fraction

/-- The sum. Two infinities of different signs have none, and a sum of zero is positive unless both
parts are negative. -/
def add (x y : Double) : Double :=
  if x.isNaN || y.isNaN then nan
  else if !x.isFinite then if !y.isFinite && x.isNegative != y.isNegative then nan else x
  else if !y.isFinite then y
  else if x.units + y.units = 0 then zero (x.isNegative && y.isNegative)
  else ofUnits (x.units + y.units)

/-- The difference. -/
def sub (x y : Double) : Double := x.add y.neg

/-- A number by which doubles are ordered: infinities lie beyond all finite doubles. -/
def rank (x : Double) : Int :=
  let beyond : Int := (1 <<< 2099 : Nat)
  if x.isFinite then x.units else if x.isNegative then -beyond else beyond

/-- Whether `x` is at most `y`; nothing is at most what is no number. -/
def le (x y : Double) : Bool := !x.isNaN && !y.isNaN && decide (x.rank ≤ y.rank)

/-- The integer part, towards zero, of a finite double. -/
def truncate (x : Double) : Int := x.units.tdiv (1 <<< unitPlaces : Nat)

/-- The nearest integer, a half going up, as a double; what is not finite is left as it is. -/
def round (x : Double) : Double :=
  if x.isFinite then
    let n := (2 * x.units + (1 <<< unitPlaces : Nat)).fdiv (2 * (1 <<< unitPlaces : Nat))
    if n = 0 then zero x.isNegative else ofInt n
  else x

end SwiftLens.Double
