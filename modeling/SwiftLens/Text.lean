/-!
# Text

A text is a list of UTF-16 code units. Everything the library reads or prints is counted, cut and
compared in these units, and a text may hold half of a surrogate pair: a line cut in the middle of
an astral character is still a text. This module holds the code units that have a name, the
embedding of Lean strings, decimal numbers as texts, and the few searches that the rest needs.

String literals stand for their texts wherever a text is expected, so that messages are written as
`"Unknown argument " ++ word`.
-/

namespace SwiftLens

/-- A UTF-16 code unit. -/
abbrev CodeUnit := UInt16

/-- A sequence of UTF-16 code units; halves of surrogate pairs may stand alone. -/
abbrev Text := List CodeUnit

/-! ## Code units by name -/

namespace CodeUnit

/-- The code unit U+0000. -/
@[match_pattern] abbrev nul : CodeUnit := 0x00

/-- The line feed, U+000A. -/
@[match_pattern] abbrev lineFeed : CodeUnit := 0x0A

/-- The carriage return, U+000D. -/
@[match_pattern] abbrev carriageReturn : CodeUnit := 0x0D

/-- The space, U+0020. -/
@[match_pattern] abbrev space : CodeUnit := 0x20

/-- The quotation mark. -/
@[match_pattern] abbrev quote : CodeUnit := 0x22

/-- The asterisk. -/
@[match_pattern] abbrev asterisk : CodeUnit := 0x2A

/-- The plus sign. -/
@[match_pattern] abbrev plus : CodeUnit := 0x2B

/-- The comma. -/
@[match_pattern] abbrev comma : CodeUnit := 0x2C

/-- The minus sign. -/
@[match_pattern] abbrev minus : CodeUnit := 0x2D

/-- The full stop. -/
@[match_pattern] abbrev dot : CodeUnit := 0x2E

/-- The slash. -/
@[match_pattern] abbrev slash : CodeUnit := 0x2F

/-- The digit zero. -/
@[match_pattern] abbrev zero : CodeUnit := 0x30

/-- The colon. -/
@[match_pattern] abbrev colon : CodeUnit := 0x3A

/-- The equals sign. -/
@[match_pattern] abbrev equals : CodeUnit := 0x3D

/-- The opening square bracket. -/
@[match_pattern] abbrev openBracket : CodeUnit := 0x5B

/-- The backslash. -/
@[match_pattern] abbrev backslash : CodeUnit := 0x5C

/-- The closing square bracket. -/
@[match_pattern] abbrev closeBracket : CodeUnit := 0x5D

/-- The letter `u`. -/
@[match_pattern] abbrev letterU : CodeUnit := 0x75

/-- The opening brace. -/
@[match_pattern] abbrev openBrace : CodeUnit := 0x7B

/-- The closing brace. -/
@[match_pattern] abbrev closeBrace : CodeUnit := 0x7D

/-- Whether a unit is one of the ten decimal digits. -/
def isDigit (c : CodeUnit) : Bool := 0x30 ≤ c && c ≤ 0x39

/-- The value of a decimal digit. -/
def digitValue (c : CodeUnit) : Nat := c.toNat - 0x30

/-- Whether a unit is the first half of a surrogate pair. -/
def isHighSurrogate (c : CodeUnit) : Bool := 0xD800 ≤ c && c ≤ 0xDBFF

/-- Whether a unit is the second half of a surrogate pair. -/
def isLowSurrogate (c : CodeUnit) : Bool := 0xDC00 ≤ c && c ≤ 0xDFFF

/-- The code point that a surrogate pair stands for. -/
def joinSurrogates (high low : CodeUnit) : Nat :=
  0x10000 + (high.toNat - 0xD800) * 0x400 + (low.toNat - 0xDC00)

end CodeUnit

namespace Text

/-! ## Literals -/

/-- The one or two code units of a code point. -/
def ofCodePoint (n : Nat) : Text :=
  if n < 0x10000 then [UInt16.ofNat n]
  else [UInt16.ofNat (0xD800 + (n - 0x10000) / 0x400), UInt16.ofNat (0xDC00 + (n - 0x10000) % 0x400)]

/-- The text of a Lean string. -/
def ofString (s : String) : Text := s.toList.flatMap fun c => ofCodePoint c.toNat

instance : Coe String Text := ⟨ofString⟩

/-! ## Decimal numbers -/

/-- The decimal digits of a natural number, without leading zeros. -/
def ofNat (n : Nat) : Text := (Nat.toDigits 10 n).map fun c => UInt16.ofNat c.toNat

/-- The decimal digits of an integer, after a minus sign when it is negative. -/
def ofInt (n : Int) : Text :=
  if n < 0 then CodeUnit.minus :: ofNat n.natAbs else ofNat n.natAbs

/-- The number that a run of decimal digits denotes, leading zeros allowed. -/
def digitsValue (digits : Text) : Nat := digits.foldl (fun n c => 10 * n + c.digitValue) 0

/-- Whether a text is a non-empty run of decimal digits. -/
def isDigits (t : Text) : Bool := !t.isEmpty && t.all CodeUnit.isDigit

/-- The natural number whose digits make up the whole text. -/
def toNat? (t : Text) : Option Nat := if t.isDigits then some t.digitsValue else none

/-- The integer written as digits after at most one minus sign. -/
def toInt? : Text → Option Int
  | CodeUnit.minus :: digits => (toNat? digits).map fun n => -(n : Int)
  | t => (toNat? t).map fun n => (n : Int)

/-- A lower-case hexadecimal digit. -/
def hexDigit (n : Nat) : CodeUnit := UInt16.ofNat (if n < 10 then 0x30 + n else 0x57 + n)

/-- A code unit as four lower-case hexadecimal digits. -/
def hex4 (c : CodeUnit) : Text :=
  [hexDigit (c.toNat / 0x1000), hexDigit (c.toNat / 0x100 % 0x10), hexDigit (c.toNat / 0x10 % 0x10),
    hexDigit (c.toNat % 0x10)]

/-! ## Searching and joining -/

/-- Whether `t` begins with `start`. -/
def startsWith (t start : Text) : Bool := start.isPrefixOf t

/-- Whether `t` ends with `ending`. -/
def endsWith (t ending : Text) : Bool := ending.isSuffixOf t

/-- Whether `part` occurs somewhere in `t`. -/
def includes (part : Text) : Text → Bool
  | [] => part.isEmpty
  | c :: rest => part.isPrefixOf (c :: rest) || includes part rest

/-- The texts one after the other, with `separator` between neighbours. -/
def join (separator : Text) : List Text → Text
  | [] => []
  | [t] => t
  | t :: rest => t ++ (separator ++ join separator rest)

/-- The pieces of `t` between the units that satisfy `p`: one more piece than there are such units. -/
def splitOn (p : CodeUnit → Bool) : Text → List Text
  | [] => [[]]
  | c :: rest =>
    if p c then [] :: splitOn p rest
    else match splitOn p rest with
      | [] => [[c]]
      | piece :: pieces => (c :: piece) :: pieces

/-- The text between two quotation marks. -/
def quoted (t : Text) : Text := "\"" ++ t ++ "\""

/-- Whether no half of a surrogate pair stands alone in the text. -/
def isWellFormed : Text → Bool
  | [] => true
  | [c] => !c.isHighSurrogate && !c.isLowSurrogate
  | c :: d :: rest =>
    if c.isHighSurrogate then d.isLowSurrogate && isWellFormed rest
    else !c.isLowSurrogate && isWellFormed (d :: rest)

end Text

end SwiftLens
