import SwiftLens.Text
import SwiftLens.Number.Shortest

/-!
# Layout of numbers

How a number is written: its shortest decimal, positionally while the decimal point lies near the
digits and with a power of ten otherwise. The decisions of the format stand in one record.
-/

namespace SwiftLens

/-- The decisions of a number format. -/
structure NumberFormat where
  /-- The greatest place of the decimal point that is written positionally. -/
  maxPoint : Int
  /-- The least place of the decimal point that is written positionally. -/
  minPoint : Int
  /-- Whether a negative zero shows its sign. -/
  signedZero : Bool

namespace NumberFormat

/-- Numbers in messages and documents: positional from `1e-6` up to below `1e21`, and no sign on
zero. -/
def plain : NumberFormat := ⟨21, -5, false⟩

/-- Numbers where the two zeros have to be told apart. -/
def exact : NumberFormat := { plain with signedZero := true }

/-- The text of a row of digits. -/
def digitText (digits : List Nat) : Text := digits.flatMap Text.ofNat

/-- A row of zeros. -/
def zeros (n : Nat) : Text := List.replicate n CodeUnit.zero

/-- A decimal as text. -/
def decimal (f : NumberFormat) (d : Decimal) : Text :=
  let count : Int := d.digits.length
  if f.minPoint ≤ d.point ∧ d.point ≤ f.maxPoint then
    if count ≤ d.point then digitText d.digits ++ zeros (d.point - count).toNat
    else if 0 < d.point then
      digitText (d.digits.take d.point.toNat) ++ "." ++ digitText (d.digits.drop d.point.toNat)
    else "0." ++ zeros d.point.natAbs ++ digitText d.digits
  else
    let e := d.point - 1
    let mantissa :=
      digitText (d.digits.take 1) ++ (if 1 < count then "." ++ digitText (d.digits.drop 1) else "")
    mantissa ++ (if e < 0 then "e-" else "e+") ++ Text.ofNat e.natAbs

/-- A double as text. -/
def text (f : NumberFormat) (x : Double) : Text :=
  if x.isNaN then "NaN"
  else
    let sign : Text := if x.isNegative && (f.signedZero || !x.isZero) then "-" else ""
    if !x.isFinite then sign ++ "Infinity"
    else if x.isZero then sign ++ "0"
    else sign ++ f.decimal (Decimal.shortest x)

end NumberFormat

/-- The text of a double as it stands in messages and documents. -/
def Double.text (x : Double) : Text := NumberFormat.plain.text x

end SwiftLens
