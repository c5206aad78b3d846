import SwiftLens.Text.Utf8

/-!
# Base64

Bytes are written in groups of four letters of the standard alphabet, the last group padded with
`=`. Reading is lenient: a text is accepted when it consists of letters of the alphabet followed by
at most two `=`, whatever their number, and it denotes as many whole bytes as its letters hold;
bits beyond the last whole byte are dropped.
-/

namespace SwiftLens.Base64

/-- The letter for a number below 64. -/
def letter (n : Nat) : CodeUnit :=
  UInt16.ofNat <|
    if n < 26 then 0x41 + n
    else if n < 52 then 0x61 + (n - 26)
    else if n < 62 then 0x30 + (n - 52)
    else if n = 62 then 0x2B
    else 0x2F

/-- The number for a letter of the alphabet. -/
def sextet? (c : CodeUnit) : Option Nat :=
  if 0x41 ≤ c && c ≤ 0x5A then some (c.toNat - 0x41)
  else if 0x61 ≤ c && c ≤ 0x7A then some (c.toNat - 0x61 + 26)
  else if c.isDigit then some (c.toNat - 0x30 + 52)
  else if c = 0x2B then some 62
  else if c = 0x2F then some 63
  else none

/-- The padded text of a byte string. -/
def encode : Utf8.Bytes → Text
  | [] => []
  | [a] => [letter (a.toNat / 4), letter (a.toNat % 4 * 16), CodeUnit.equals, CodeUnit.equals]
  | [a, b] =>
    [letter (a.toNat / 4), letter (a.toNat % 4 * 16 + b.toNat / 16), letter (b.toNat % 16 * 4),
      CodeUnit.equals]
  | a :: b :: c :: rest =>
    [letter (a.toNat / 4), letter (a.toNat % 4 * 16 + b.toNat / 16),
      letter (b.toNat % 16 * 4 + c.toNat / 64), letter (c.toNat % 64)] ++ encode rest

/-- The whole bytes held by a row of numbers below 64. -/
def pack : List Nat → Utf8.Bytes
  | a :: b :: c :: d :: rest =>
    [UInt8.ofNat (a * 4 + b / 16), UInt8.ofNat (b % 16 * 16 + c / 4), UInt8.ofNat (c % 4 * 64 + d)]
      ++ pack rest
  | [a, b, c] => [UInt8.ofNat (a * 4 + b / 16), UInt8.ofNat (b % 16 * 16 + c / 4)]
  | [a, b] => [UInt8.ofNat (a * 4 + b / 16)]
  | _ => []

/-- The letters at the beginning of a text. -/
def letters (t : Text) : Text := t.takeWhile fun c => (sextet? c).isSome

/-- What follows the letters at the beginning of a text. -/
def padding (t : Text) : Text := t.dropWhile fun c => (sextet? c).isSome

/-- Whether a text is letters of the alphabet and then at most two `=`. -/
def isAccepted (t : Text) : Bool := (padding t).length ≤ 2 && (padding t).all (· == CodeUnit.equals)

/-- The bytes that an accepted text denotes. -/
def decode? (t : Text) : Option Utf8.Bytes :=
  if isAccepted t then some (pack ((letters t).filterMap sextet?)) else none

end SwiftLens.Base64
