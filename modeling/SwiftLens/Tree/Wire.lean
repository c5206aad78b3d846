import SwiftLens.Json.Writer
import SwiftLens.Text.Base64
import SwiftLens.Tree.Location
import SwiftLens.Tree.Value

/-!
# The wire form of trees

JSON has neither 64-bit integers nor byte strings, so on the wire these are tagged: a signed integer
is an object with the single key `int64` and a decimal string, and likewise `uint64`, `double`,
`data` (in base64) and `dictionary` (an array of pairs, which keeps the order of the keys). Null,
booleans, strings and arrays stand for themselves.

`encode` writes this form and `decode` reads it. Reading refuses what is not in the form
and reports the first defect in reading order with its location; a repeated key is refused before its
value is looked at.
-/

namespace SwiftLens

namespace Wire

/-- Why a JSON value is not the wire form of a tree. -/
inductive Defect where
  /-- A number without a tag. -/
  | bareNumber
  /-- An object that does not have exactly one key. -/
  | tagCount (keys : List Text)
  /-- A key that is no tag. -/
  | unknownTag (tag : Text)
  /-- An integer that is not a string of digits. -/
  | notDecimal (raw : Json Double)
  /-- An integer that takes more than 64 bits. -/
  | outOfRange (digits : Text) (tag : Text)
  /-- A double that is not a number. -/
  | notNumber
  /-- Bytes that are not in base64. -/
  | notBase64
  /-- A dictionary that is not an array. -/
  | notPairs
  /-- An entry that is not a key and a value. -/
  | notPair
  /-- A key that occurs a second time. -/
  | duplicateKey (key : Text)

/-- A defect in words. -/
def Defect.message : Defect → Text
  | bareNumber => "bare numbers are not allowed; tag them as int64, uint64 or double"
  | tagCount keys => "tagged value needs exactly one tag, got [" ++ Text.join ", " keys ++ "]"
  | unknownTag tag => "unknown tag " ++ Text.quoted tag
  | notDecimal raw => "expected a decimal string, got " ++ raw.write
  | outOfRange digits tag => digits ++ " does not fit in " ++ tag
  | notNumber => "expected a number"
  | notBase64 => "expected a base64 string"
  | notPairs => "expected an array of [key, value] pairs"
  | notPair => "expected a [string, value] pair"
  | duplicateKey key => "duplicate key " ++ Text.quoted key

/-! ## Writing -/

/-- An object with a single key. -/
def tagged (tag : Text) (value : Json Double) : Json Double := .object [(tag, value)]

mutual

/-- The wire form of a tree. -/
def encode : Value → Json Double
  | .null => .null
  | .bool b => .bool b
  | .string t => .string t
  | .int64 n => tagged "int64" (.string (Text.ofInt n))
  | .uint64 n => tagged "uint64" (.string (Text.ofInt n))
  | .double x => tagged "double" (.number x)
  | .data bytes => tagged "data" (.string (Base64.encode bytes))
  | .array items => .array (encodeItems items)
  | .dictionary entries => tagged "dictionary" (.array (encodeEntries entries))

/-- The wire forms of items. -/
def encodeItems : List Value → List (Json Double)
  | [] => []
  | item :: rest => encode item :: encodeItems rest

/-- The wire forms of entries, each a pair of key and value. -/
def encodeEntries : List (Text × Value) → List (Json Double)
  | [] => []
  | (key, value) :: rest => .array [.string key, encode value] :: encodeEntries rest

end

/-! ## Reading -/

/-- The least and the greatest integer of 64 bits with a sign. -/
def signedRange : Int × Int := (-0x8000000000000000, 0x7FFFFFFFFFFFFFFF)

/-- The least and the greatest integer of 64 bits without a sign. -/
def unsignedRange : Int × Int := (0, 0xFFFFFFFFFFFFFFFF)

/-- The integer of a decimal string, which `read` takes apart, within a range. -/
def decodeInteger (tag : Text) (read : Text → Option Int) (range : Int × Int) :
    Json Double → Except (Located Defect) Int
  | .string t =>
    match read t with
    | none => Located.here (.notDecimal (.string t))
    | some n => if n < range.1 ∨ range.2 < n then Located.here (.outOfRange t tag) else .ok n
  | raw => Located.here (.notDecimal raw)

/-- The number of a double. -/
def decodeDouble : Json Double → Except (Located Defect) Double
  | .number x => .ok x
  | _ => Located.here .notNumber

/-- The bytes of a byte string. -/
def decodeData : Json Double → Except (Located Defect) Utf8.Bytes
  | .string t =>
    match Base64.decode? t with
    | some bytes => .ok bytes
    | none => Located.here .notBase64
  | _ => Located.here .notBase64

/-- A natural number as the integer that a string of digits denotes. -/
def unsigned? (t : Text) : Option Int := t.toNat?.map fun n => (n : Int)

mutual

/-- The tree whose wire form is given. -/
def decode : Json Double → Except (Located Defect) Value
  | .null => .ok .null
  | .bool b => .ok (.bool b)
  | .string t => .ok (.string t)
  | .number _ => Located.here .bareNumber
  | .array items => (decodeItems 0 items).map .array
  | .object [(tag, raw)] =>
    if tag = "int64" then
      Located.under (.field tag) ((decodeInteger tag Text.toInt? signedRange raw).map .int64)
    else if tag = "uint64" then
      Located.under (.field tag) ((decodeInteger tag unsigned? unsignedRange raw).map .uint64)
    else if tag = "double" then Located.under (.field tag) ((decodeDouble raw).map .double)
    else if tag = "data" then Located.under (.field tag) ((decodeData raw).map .data)
    else if tag = "dictionary" then Located.under (.field tag) (decodeDictionary raw)
    else Located.here (.unknownTag tag)
  | .object members => Located.here (.tagCount (Entries.keys members))

/-- The trees of items, the first of which has the given number. -/
def decodeItems (index : Nat) : List (Json Double) → Except (Located Defect) (List Value)
  | [] => .ok []
  | item :: rest =>
    match Located.under (.item index) (decode item) with
    | .error e => .error e
    | .ok value => (decodeItems (index + 1) rest).map fun values => value :: values

/-- The dictionary of an array of pairs. -/
def decodeDictionary : Json Double → Except (Located Defect) Value
  | .array pairs => (decodePairs 0 [] pairs).map .dictionary
  | _ => Located.here .notPairs

/-- The entries of pairs, the first of which has the given number, after the entries before them. -/
def decodePairs (index : Nat) (before : Entries Value) :
    List (Json Double) → Except (Located Defect) (Entries Value)
  | [] => .ok before
  | .array [.string key, item] :: rest =>
    if before.has key then Located.under (.item index) (Located.here (.duplicateKey key))
    else
      match Located.under (.item index) (Located.under (.item 1) (decode item)) with
      | .error e => .error e
      | .ok value => decodePairs (index + 1) (before ++ [(key, value)]) rest
  | _ :: _ => Located.under (.item index) (Located.here .notPair)

end

end Wire

end SwiftLens
