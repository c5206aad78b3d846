import SwiftLens.Text

/-!
# UTF-8

Encoding turns surrogate pairs into four bytes; half a pair that stands alone has no encoding and
is written as the replacement character, three bytes long.

Decoding never fails. It reads byte by byte, holding the character that has begun and the range in
which the next byte must lie; a byte outside that range ends the character with one replacement
character and is then read afresh. So each longest beginning of a character that the bytes contain,
and each byte that can begin no character, yields one replacement character. A byte order mark is
kept.
-/

namespace SwiftLens.Utf8

/-- A byte of the file or of an encoded text. -/
abbrev Bytes := List UInt8

/-- The replacement character U+FFFD. -/
def replacement : CodeUnit := 0xFFFD

/-! ## Encoding -/

/-- The bytes of one code point, which is at most U+10FFFF. -/
def encodePoint (n : Nat) : Bytes :=
  if n < 0x80 then [UInt8.ofNat n]
  else if n < 0x800 then [UInt8.ofNat (0xC0 + n / 0x40), UInt8.ofNat (0x80 + n % 0x40)]
  else if n < 0x10000 then
    [UInt8.ofNat (0xE0 + n / 0x1000), UInt8.ofNat (0x80 + n / 0x40 % 0x40), UInt8.ofNat (0x80 + n % 0x40)]
  else
    [UInt8.ofNat (0xF0 + n / 0x40000), UInt8.ofNat (0x80 + n / 0x1000 % 0x40),
      UInt8.ofNat (0x80 + n / 0x40 % 0x40), UInt8.ofNat (0x80 + n % 0x40)]

/-- The bytes of a unit that is not part of a surrogate pair. -/
def encodeUnit (c : CodeUnit) : Bytes :=
  if c.isHighSurrogate || c.isLowSurrogate then encodePoint replacement.toNat else encodePoint c.toNat

/-- The UTF-8 bytes of a text. -/
def encode : Text → Bytes
  | [] => []
  | [c] => encodeUnit c
  | c :: d :: rest =>
    if c.isHighSurrogate && d.isLowSurrogate then encodePoint (CodeUnit.joinSurrogates c d) ++ encode rest
    else encodeUnit c ++ encode (d :: rest)

/-- The number of UTF-8 bytes of a text. -/
def size (t : Text) : Nat := (encode t).length

/-! ## Decoding -/

/-- A character that has begun: how many bytes it still lacks, the range of the next byte, and the
bits read so far. -/
structure Begun where
  missing : Nat
  low : UInt8
  high : UInt8
  bits : Nat
  deriving DecidableEq, Repr

/-- Read a byte where a character may begin. -/
def start (b : UInt8) : Text × Option Begun :=
  if b < 0x80 then ([b.toUInt16], none)
  else if 0xC2 ≤ b && b ≤ 0xDF then ([], some ⟨1, 0x80, 0xBF, b.toNat % 0x20⟩)
  else if b = 0xE0 then ([], some ⟨2, 0xA0, 0xBF, 0⟩)
  else if b = 0xED then ([], some ⟨2, 0x80, 0x9F, 0xD⟩)
  else if 0xE1 ≤ b && b ≤ 0xEF then ([], some ⟨2, 0x80, 0xBF, b.toNat % 0x10⟩)
  else if b = 0xF0 then ([], some ⟨3, 0x90, 0xBF, 0⟩)
  else if b = 0xF4 then ([], some ⟨3, 0x80, 0x8F, 4⟩)
  else if 0xF1 ≤ b && b ≤ 0xF3 then ([], some ⟨3, 0x80, 0xBF, b.toNat % 0x08⟩)
  else ([replacement], none)

/-- Read a byte, given the character that has begun before it. -/
def step : Option Begun → UInt8 → Text × Option Begun
  | none, b => start b
  | some p, b =>
    if p.low ≤ b && b ≤ p.high then
      let bits := p.bits * 0x40 + b.toNat % 0x40
      if p.missing = 1 then (Text.ofCodePoint bits, none)
      else ([], some ⟨p.missing - 1, 0x80, 0xBF, bits⟩)
    else
      let (units, state) := start b
      (replacement :: units, state)

/-- Read bytes to their end, where an unfinished character is replaced. -/
def run : Option Begun → Bytes → Text
  | none, [] => []
  | some _, [] => [replacement]
  | state, b :: rest =>
    let (units, state) := step state b
    units ++ run state rest

/-- The text of a byte string, with U+FFFD for what is not UTF-8. -/
def decode (bytes : Bytes) : Text := run none bytes

/-- The text that is left of a text once it has been encoded and decoded: halves of surrogate pairs that
stand alone are replaced. File names, arguments and variables are such texts. -/
def wellFormed (t : Text) : Text := decode (encode t)

/-- Whether a byte continues a character. -/
def isContinuation (b : UInt8) : Bool := 0x80 ≤ b && b ≤ 0xBF

end SwiftLens.Utf8
