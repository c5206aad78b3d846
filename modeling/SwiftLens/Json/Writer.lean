import SwiftLens.Json.Basic

/-!
# Writing JSON

A value is written without any blanks. In a string the quotation mark, the backslash, the units
below U+0020 and the halves of surrogate pairs that stand alone are escaped; everything else stands
for itself. A number that is not finite has no JSON form and is written as `null`.
-/

namespace SwiftLens.Json

open CodeUnit

/-- A unit as it stands in a written string when it is not half of a surrogate pair. -/
def escape (c : CodeUnit) : Text :=
  if c = quote then "\\\""
  else if c = backslash then "\\\\"
  else if c = 0x08 then "\\b"
  else if c = 0x09 then "\\t"
  else if c = lineFeed then "\\n"
  else if c = 0x0C then "\\f"
  else if c = carriageReturn then "\\r"
  else if c < 0x20 then "\\u" ++ Text.hex4 c
  else [c]

/-- Half a surrogate pair that stands alone is escaped as well. -/
def escapeAlone (c : CodeUnit) : Text :=
  if c.isHighSurrogate || c.isLowSurrogate then "\\u" ++ Text.hex4 c else escape c

/-- The text of a string between its quotation marks. -/
def escapeAll : Text → Text
  | [] => []
  | [c] => escapeAlone c
  | c :: d :: rest =>
    if c.isHighSurrogate && d.isLowSurrogate then c :: d :: escapeAll rest
    else escapeAlone c ++ escapeAll (d :: rest)

/-- A string as written. -/
def writeString (t : Text) : Text := "\"" ++ escapeAll t ++ "\""

/-- A number as written. -/
def writeNumber (x : Double) : Text := if x.isFinite then x.text else "null"

mutual

/-- A value as written. -/
def write : Json Double → Text
  | null => "null"
  | bool true => "true"
  | bool false => "false"
  | number x => writeNumber x
  | string t => writeString t
  | array items => "[" ++ writeItems items ++ "]"
  | object members => "\x7b" ++ writeMembers members ++ "\x7d"

/-- The items of an array, with commas between them. -/
def writeItems : List (Json Double) → Text
  | [] => []
  | [item] => write item
  | item :: rest => write item ++ "," ++ writeItems rest

/-- The members of an object, with commas between them. -/
def writeMembers : List (Text × Json Double) → Text
  | [] => []
  | [(key, value)] => writeString key ++ ":" ++ write value
  | (key, value) :: rest => writeString key ++ ":" ++ write value ++ "," ++ writeMembers rest

end

end SwiftLens.Json
