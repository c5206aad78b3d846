import SwiftLens.Entries
import SwiftLens.Number.Layout

/-!
# JSON values

The type of JSON values is parametric in its numbers. A document as it is written has numerals,
which keep every digit, and its objects list their members as written. Its meaning has doubles, and
its objects are entries: a repeated key keeps its first place and its last value, and array indices
come first.
-/

namespace SwiftLens

/-- A JSON value with numbers of type `ν`. -/
inductive Json (ν : Type) where
  | null
  | bool (value : Bool)
  | number (value : ν)
  | string (value : Text)
  | array (items : List (Json ν))
  | object (members : List (Text × Json ν))

/-- A number as written: `± digits * 10 ^ scale`, and whether it has neither fraction nor exponent. -/
structure Numeral where
  negative : Bool
  digits : Nat
  scale : Int
  isInteger : Bool
  deriving DecidableEq, Repr

/-- The double nearest to a numeral. -/
def Numeral.toDouble (n : Numeral) : Double := Double.ofDecimal n.negative n.digits n.scale

namespace Json

instance {ν : Type} : Inhabited (Json ν) := ⟨null⟩

/-- A natural number as a JSON number. -/
def ofNat (n : Nat) : Json Double := number (Double.ofNat n)

/-- An integer as a JSON number. -/
def ofInt (n : Int) : Json Double := number (Double.ofInt n)

/-- The member of an object at a key; anything else has no members. -/
def member? {ν : Type} (key : Text) : Json ν → Option (Json ν)
  | object members => Entries.get? key members
  | _ => none

mutual

/-- The meaning of a document. -/
def evaluate : Json Numeral → Json Double
  | null => null
  | bool b => bool b
  | number n => number n.toDouble
  | string t => string t
  | array items => array (evaluateItems items)
  | object members => object (Entries.inPropertyOrder (Entries.ofPairs (evaluateMembers members)))

/-- The meanings of the items of an array. -/
def evaluateItems : List (Json Numeral) → List (Json Double)
  | [] => []
  | item :: rest => evaluate item :: evaluateItems rest

/-- The meanings of the members of an object, as written. -/
def evaluateMembers : List (Text × Json Numeral) → List (Text × Json Double)
  | [] => []
  | (key, value) :: rest => (key, evaluate value) :: evaluateMembers rest

end

end Json

end SwiftLens
