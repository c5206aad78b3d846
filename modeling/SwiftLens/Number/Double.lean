/-!
# Double-precision numbers

A double is its 64 bits. All arithmetic on doubles here is exact arithmetic on the integers that
the bits encode: a finite double is a sign, a significand and a power of two, and a ratio of natural
numbers is brought back to a double by one rounded division, halves going to the even neighbour.
-/

namespace SwiftLens

/-- A double-precision number, as its sign bit, eleven exponent bits and 52 fraction bits. -/
structure Double where
  bits : UInt64
  deriving DecidableEq, Repr

namespace Double

/-! ## Reading the bits -/

/-- The weight of the sign bit. -/
def signWeight : Nat := 1 <<< 63

/-- The weight of the lowest exponent bit, and of the highest bit of a normal significand, which is not
stored. -/
def hiddenWeight : Nat := 1 <<< 52

/-- Whether the sign bit is set. -/
def isNegative (x : Double) : Bool := signWeight ≤ x.bits.toNat

/-- The eleven exponent bits as a number. -/
def biased (x : Double) : Nat := x.bits.toNat / hiddenWeight % 2048

/-- The 52 fraction bits as a number. -/
def fraction (x : Double) : Nat := x.bits.toNat % hiddenWeight

/-- Whether a double is a number with finite value. -/
def isFinite (x : Double) : Bool := x.biased != 2047

/-- Whether a double is no number. -/
def isNaN (x : Double) : Bool := x.biased == 2047 && x.fraction != 0

/-- The integer `m` with `|x| = m * 2 ^ e` for a finite `x` and its exponent `e`. -/
def significand (x : Double) : Nat :=
  if x.biased = 0 then x.fraction else hiddenWeight + x.fraction

/-- The integer `e` with `|x| = m * 2 ^ e` for a finite `x` and its significand `m`. -/
def exponent (x : Double) : Int := (max x.biased 1 : Nat) - 1075

/-- Whether a double is one of the two zeros. -/
def isZero (x : Double) : Bool := x.biased == 0 && x.fraction == 0

/-! ## Building doubles -/

/-- The double with the given sign, exponent bits and fraction bits. -/
def ofFields (negative : Bool) (biased fraction : Nat) : Double :=
  ⟨UInt64.ofNat ((if negative then signWeight else 0) + biased * hiddenWeight + fraction)⟩

/-- Zero with the given sign. -/
def zero (negative : Bool) : Double := ofFields negative 0 0

/-- Infinity with the given sign. -/
def infinity (negative : Bool) : Double := ofFields negative 2047 0

/-- The double that is no number. -/
def nan : Double := ofFields false 2047 (1 <<< 51)

/-- The quotient rounded to the nearest integer, halves to the even one. -/
def roundedQuotient (num den : Nat) : Nat :=
  let q := num / den
  let r := num % den
  if 2 * r < den then q else if den < 2 * r then q + 1 else q + q % 2

/-- The double for `m * 2 ^ e`, where `m ≤ 2 ^ 53`, and `e` is the least exponent unless
`2 ^ 52 ≤ m`. -/
def ofScaled (negative : Bool) (m : Nat) (e : Int) : Double :=
  if m < hiddenWeight then ofFields negative 0 m
  else
    let (m, e) := if m = 2 * hiddenWeight then (hiddenWeight, e + 1) else (m, e)
    if 2046 < e + 1075 then infinity negative
    else ofFields negative (e + 1075).toNat (m - hiddenWeight)

/-- The quotient of `num * 2 ^ (-e)` by `den`, rounded to an integer. -/
def scaledQuotient (num den : Nat) (e : Int) : Nat :=
  if e < 0 then roundedQuotient (num <<< e.natAbs) den else roundedQuotient num (den <<< e.natAbs)

/-- The double nearest to `num / den`, where `den` is positive. -/
def ofRatio (negative : Bool) (num den : Nat) : Double :=
  if num = 0 then zero negative
  else
    let estimate : Int := (num.log2 : Int) - (den.log2 : Int) - 53
    let e := max estimate (-1074)
    let e :=
      let floor := if e < 0 then (num <<< e.natAbs) / den else num / (den <<< e.natAbs)
      if 2 * hiddenWeight ≤ floor then e + 1 else e
    ofScaled negative (scaledQuotient num den e) e

/-- The double nearest to a natural number. -/
def ofNat (n : Nat) : Double := ofRatio false n 1

/-- The double nearest to an integer. -/
def ofInt (n : Int) : Double := ofRatio (n < 0) n.natAbs 1

/-- The double nearest to `digits * 10 ^ scale`. Magnitudes that round to zero or to infinity in
any case are settled by the number of digits, so that a huge `scale` costs nothing. -/
def ofDecimal (negative : Bool) (digits : Nat) (scale : Int) : Double :=
  let places : Int := (Nat.toDigits 10 digits).length + scale
  if digits = 0 then zero negative
  else if 310 < places then infinity negative
  else if places < -330 then zero negative
  else if scale < 0 then ofRatio negative digits (Nat.pow 10 scale.natAbs)
  else ofRatio negative (digits * Nat.pow 10 scale.natAbs) 1

/-! ## Integers -/

/-- The integer that a finite double equals, if it has no fractional part. -/
def toInt? (x : Double) : Option Int :=
  if x.isFinite then
    let magnitude? : Option Nat :=
      if 0 ≤ x.exponent then some (x.significand <<< x.exponent.natAbs)
      else if x.significand % (1 <<< x.exponent.natAbs) = 0 then
        some (x.significand / (1 <<< x.exponent.natAbs))
      else none
    magnitude?.map fun n => if x.isNegative then -(n : Int) else (n : Int)
  else none

/-- The greatest integer up to which every integer is a double of its own. -/
def maxSafe : Nat := 2 * hiddenWeight - 1

/-- Whether an integer and its neighbours are doubles of their own. -/
def isSafe (n : Int) : Bool := n.natAbs ≤ maxSafe

end Double

end SwiftLens
