import SwiftLens.Text

/-!
# Texts as literals

A literal shows a text between quotation marks, with a backslash before what could not be seen
otherwise. The marks are single ones unless the text itself holds a single one; then they are double
ones, or else backquotes, if the text holds none of those and nothing that backquotes would replace. A
long text is shown line by line, the lines joined by plus signs.
-/

namespace SwiftLens.Text

open CodeUnit

/-- The single quotation mark. -/
def apostrophe : CodeUnit := 0x27

/-- The backquote. -/
def backquote : CodeUnit := 0x60

/-- The mark between which a text is shown. -/
def literalMark (t : Text) : CodeUnit :=
  if !t.contains apostrophe then apostrophe
  else if !t.contains quote then quote
  else if !t.contains backquote && !includes "$\x7b" t then backquote
  else apostrophe

/-- An upper-case hexadecimal digit. -/
def upperHexDigit (n : Nat) : CodeUnit := UInt16.ofNat (if n < 10 then 0x30 + n else 0x37 + n)

/-- A unit that is no part of a surrogate pair, as it is shown between the given marks. -/
def literalUnit (mark c : CodeUnit) : Text :=
  if c = backslash ∨ (c = mark ∧ mark = apostrophe) then [backslash, c]
  else if c = 0x08 then "\\b"
  else if c = 0x09 then "\\t"
  else if c = lineFeed then "\\n"
  else if c = 0x0C then "\\f"
  else if c = carriageReturn then "\\r"
  else if c < 0x20 ∨ (0x7F ≤ c ∧ c < 0xA0) then
    "\\x" ++ [upperHexDigit (c.toNat / 0x10), upperHexDigit (c.toNat % 0x10)]
  else if c.isHighSurrogate || c.isLowSurrogate then "\\u" ++ hex4 c
  else [c]

/-- The units of a text as they are shown between the given marks. -/
def literalUnits (mark : CodeUnit) : Text → Text
  | [] => []
  | [c] => literalUnit mark c
  | c :: d :: rest =>
    if c.isHighSurrogate && d.isLowSurrogate then c :: d :: literalUnits mark rest
    else literalUnit mark c ++ literalUnits mark (d :: rest)

/-- A text as one literal. -/
def literalLine (t : Text) : Text :=
  let mark := t.literalMark
  mark :: (literalUnits mark t ++ [mark])

/-- The lines of a text, each with the line feed that ends it; a text that ends with a line feed has no
empty line after it. -/
def linesKept : Text → List Text
  | [] => []
  | c :: rest =>
    if c = lineFeed then [c] :: linesKept rest
    else match linesKept rest with
      | [] => [[c]]
      | line :: lines => (c :: line) :: lines

/-- The length up to which a text is shown as one literal. -/
def literalWidth : Nat := 124

/-- A text as a literal. -/
def literal (t : Text) : Text :=
  if t.length ≤ literalWidth then t.literalLine
  else join " +\n  " (t.linesKept.map literalLine)

end SwiftLens.Text
