import SwiftLens.Json.Basic

/-!
# Reading JSON

A reader takes a value from the front of a text and returns what is left. Strings and numerals are
read by recursion on the text; arrays and objects nest, and their readers are bounded by a count of
steps, for which twice the length of the text is always enough. Blanks between tokens are the space,
the tab, the line feed and the carriage return and nothing else. Inside a string the units from
U+0000 to U+001F must be escaped, and an escape may denote half a surrogate pair.

`read?` returns a document exactly as written; `parse?` returns its meaning.
-/

namespace SwiftLens.Json

open CodeUnit

/-- Whether a unit separates tokens. -/
def isSeparator (c : CodeUnit) : Bool := c == 0x20 || c == 0x09 || c == lineFeed || c == carriageReturn

/-- The text from its first token on. -/
def skip (t : Text) : Text := t.dropWhile isSeparator

/-! ## Strings -/

/-- The value of a hexadecimal digit in either case. -/
def hexValue? (c : CodeUnit) : Option Nat :=
  if c.isDigit then some c.digitValue
  else if 0x61 ≤ c && c ≤ 0x66 then some (c.toNat - 0x57)
  else if 0x41 ≤ c && c ≤ 0x46 then some (c.toNat - 0x37)
  else none

/-- The unit that four hexadecimal digits denote. -/
def hexUnit? (a b c d : CodeUnit) : Option CodeUnit := do
  let a ← hexValue? a
  let b ← hexValue? b
  let c ← hexValue? c
  let d ← hexValue? d
  pure (UInt16.ofNat (a * 0x1000 + b * 0x100 + c * 0x10 + d))

/-- The unit that a letter denotes after a backslash. -/
def escaped? (c : CodeUnit) : Option CodeUnit :=
  if c = quote ∨ c = backslash ∨ c = slash then some c
  else if c = 0x62 then some 0x08
  else if c = 0x66 then some 0x0C
  else if c = 0x6E then some lineFeed
  else if c = 0x72 then some carriageReturn
  else if c = 0x74 then some 0x09
  else none

/-- The string whose opening quotation mark has been read, and the text after its closing one. -/
def readString : Text → Option (Text × Text)
  | [] => none
  | backslash :: letterU :: a :: b :: c :: d :: rest => do
    let unit ← hexUnit? a b c d
    let (units, rest) ← readString rest
    pure (unit :: units, rest)
  | backslash :: c :: rest => do
    let unit ← escaped? c
    let (units, rest) ← readString rest
    pure (unit :: units, rest)
  | c :: rest =>
    if c = quote then some ([], rest)
    else if c < 0x20 ∨ c = backslash then none
    else do
      let (units, rest) ← readString rest
      pure (c :: units, rest)

/-! ## Numerals -/

/-- The digits at the front of a text and what follows them. -/
def readDigits (t : Text) : Text × Text := t.span CodeUnit.isDigit

/-- The fraction of a numeral, after the full stop if there is one; it needs a digit. -/
def readFraction : Text → Option (Text × Text)
  | dot :: rest =>
    let (digits, rest) := readDigits rest
    if digits.isEmpty then none else some (digits, rest)
  | t => some ([], t)

/-- The digits of an exponent with the given sign. -/
def readExponentDigits (negative : Bool) (t : Text) : Option (Int × Text) :=
  let (digits, rest) := readDigits t
  if digits.isEmpty then none
  else
    let n : Int := Text.digitsValue digits
    some (if negative then -n else n, rest)

/-- The exponent of a numeral, and whether there is one. -/
def readExponent : Text → Option (Int × Bool × Text)
  | c :: rest =>
    if c = 0x65 ∨ c = 0x45 then
      let exponent? := match rest with
        | plus :: rest => readExponentDigits false rest
        | minus :: rest => readExponentDigits true rest
        | rest => readExponentDigits false rest
      exponent?.map fun (n, rest) => (n, true, rest)
    else some (0, false, c :: rest)
  | [] => some (0, false, [])

/-- The numeral after its sign. The integer part has no superfluous leading zero. -/
def readUnsigned (negative : Bool) (t : Text) : Option (Numeral × Text) := do
  let (whole, rest) := readDigits t
  if whole.isEmpty ∨ (whole.head? = some CodeUnit.zero ∧ 1 < whole.length) then none
  else
    let (fraction, rest) ← readFraction rest
    let (exponent, hasExponent, rest) ← readExponent rest
    pure (⟨negative, Text.digitsValue (whole ++ fraction), exponent - fraction.length,
      fraction.isEmpty && !hasExponent⟩, rest)

/-- The numeral at the front of a text. -/
def readNumeral : Text → Option (Numeral × Text)
  | minus :: rest => readUnsigned true rest
  | t => readUnsigned false t

/-! ## Values -/

/-- The text after a word, if it begins with that word. -/
def readWord (word : Text) (t : Text) : Option Text :=
  if t.startsWith word then some (t.drop word.length) else none

mutual

/-- The value at the front of a text, in at most `fuel` nested steps. -/
def readValue : (fuel : Nat) → Text → Option (Json Numeral × Text)
  | 0, _ => none
  | fuel + 1, t =>
    match skip t with
    | quote :: rest => (readString rest).map fun (s, rest) => (string s, rest)
    | openBracket :: rest =>
      match skip rest with
      | closeBracket :: rest => some (array [], rest)
      | rest => (readItems fuel rest).map fun (items, rest) => (array items, rest)
    | openBrace :: rest =>
      match skip rest with
      | closeBrace :: rest => some (object [], rest)
      | rest => (readMembers fuel rest).map fun (members, rest) => (object members, rest)
    | t =>
      match readWord "null" t, readWord "true" t, readWord "false" t with
      | some rest, _, _ => some (null, rest)
      | _, some rest, _ => some (bool true, rest)
      | _, _, some rest => some (bool false, rest)
      | _, _, _ => (readNumeral t).map fun (n, rest) => (number n, rest)

/-- The items of an array up to its closing bracket. -/
def readItems : (fuel : Nat) → Text → Option (List (Json Numeral) × Text)
  | 0, _ => none
  | fuel + 1, t => do
    let (item, rest) ← readValue fuel t
    match skip rest with
    | comma :: rest => (readItems fuel rest).map fun (items, rest) => (item :: items, rest)
    | closeBracket :: rest => some ([item], rest)
    | _ => none

/-- The members of an object up to its closing brace. -/
def readMembers : (fuel : Nat) → Text → Option (List (Text × Json Numeral) × Text)
  | 0, _ => none
  | fuel + 1, t =>
    match skip t with
    | quote :: rest => do
      let (key, rest) ← readString rest
      match skip rest with
      | colon :: rest =>
        let (value, rest) ← readValue fuel rest
        match skip rest with
        | comma :: rest =>
          (readMembers fuel rest).map fun (members, rest) => ((key, value) :: members, rest)
        | closeBrace :: rest => some ([(key, value)], rest)
        | _ => none
      | _ => none
    | _ => none

end

/-- The value at the front of a text and what follows it. -/
def readFront (t : Text) : Option (Json Numeral × Text) := readValue (2 * t.length + 2) t

/-- The document that a whole text is, as written. -/
def read? (t : Text) : Option (Json Numeral) := do
  let (value, rest) ← readFront t
  if (skip rest).isEmpty then some value else none

/-- The meaning of the document that a whole text is. -/
def parse? (t : Text) : Option (Json Double) := (read? t).map evaluate

end SwiftLens.Json
