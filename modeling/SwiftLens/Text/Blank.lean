import SwiftLens.Text

/-!
# Blank units

The units that count as white space: the Unicode space separators, the line terminators, the tab,
the vertical tab, the form feed and the byte order mark. One table serves trimming, the reading of
numbers and the splitting of argument strings.
-/

namespace SwiftLens

/-- Whether a unit is white space. -/
def CodeUnit.isBlank (c : CodeUnit) : Bool :=
  (0x09 ≤ c && c ≤ 0x0D) || c == 0x20 || c == 0xA0 || c == 0x1680 || (0x2000 ≤ c && c ≤ 0x200A)
    || c == 0x2028 || c == 0x2029 || c == 0x202F || c == 0x205F || c == 0x3000 || c == 0xFEFF

namespace Text

/-- The text without its leading white space. -/
def trimStart (t : Text) : Text := t.dropWhile CodeUnit.isBlank

/-- The text without its trailing white space. -/
def trimEnd (t : Text) : Text := (t.reverse.dropWhile CodeUnit.isBlank).reverse

/-- The text without white space at either end. -/
def trim (t : Text) : Text := t.trimStart.trimEnd

/-- Whether a text holds nothing but white space. -/
def isBlank (t : Text) : Bool := t.all CodeUnit.isBlank

/-- A unit with the upper-case ASCII letters made lower-case and every other unit unchanged. -/
def lowerUnit (c : CodeUnit) : CodeUnit := if 0x41 ≤ c && c ≤ 0x5A then c + 0x20 else c

/-- The text with its ASCII letters in lower case. -/
def lower (t : Text) : Text := t.map lowerUnit

end Text

end SwiftLens
