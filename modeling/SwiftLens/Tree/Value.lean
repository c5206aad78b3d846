import SwiftLens.Entries
import SwiftLens.Number.Layout
import SwiftLens.Text.Utf8

/-!
# Response trees

Questions to the helper and its answers are trees. Integers come signed or unsigned, and the two are
kept apart; a tree in memory does not bound them, only its wire form does. Byte strings are leaves of
their own. A dictionary keeps its keys in the order in which they were first written, and no key
twice: `HasDistinctKeys` says so of a whole tree.
-/

namespace SwiftLens

/-- A response tree. -/
inductive Value where
  | null
  | bool (value : Bool)
  | int64 (value : Int)
  | uint64 (value : Int)
  | double (value : Double)
  | string (value : Text)
  | data (bytes : Utf8.Bytes)
  | array (items : List Value)
  | dictionary (entries : List (Text × Value))

namespace Value

instance : Inhabited Value := ⟨null⟩

/-- What a tree is, in a word. -/
def shape : Value → Text
  | null => "null"
  | bool _ => "bool"
  | int64 _ => "int64"
  | uint64 _ => "uint64"
  | double _ => "double"
  | string _ => "string"
  | data _ => "data"
  | array _ => "array"
  | dictionary _ => "dictionary"

/-- Whether a tree is a dictionary. -/
def isDictionary : Value → Bool
  | dictionary _ => true
  | _ => false

mutual

/-- The number of containers on the longest way from the root to a leaf. -/
def depth : Value → Nat
  | array items => itemsDepth items + 1
  | dictionary entries => entriesDepth entries + 1
  | _ => 0

/-- The greatest depth among items. -/
def itemsDepth : List Value → Nat
  | [] => 0
  | item :: rest => max (depth item) (itemsDepth rest)

/-- The greatest depth among entries. -/
def entriesDepth : List (Text × Value) → Nat
  | [] => 0
  | (_, value) :: rest => max (depth value) (entriesDepth rest)

end

mutual

/-- A tree built anew from the entries of the given one, each key at its first place with its last
value. -/
def copy : Value → Value
  | array items => array (copyItems items)
  | dictionary entries => dictionary (Entries.ofPairs (copyEntries entries))
  | leaf => leaf

/-- Copies of items. -/
def copyItems : List Value → List Value
  | [] => []
  | item :: rest => copy item :: copyItems rest

/-- Copies of entries. -/
def copyEntries : List (Text × Value) → List (Text × Value)
  | [] => []
  | (key, value) :: rest => (key, copy value) :: copyEntries rest

end

mutual

/-- Every dictionary of the tree has distinct keys. -/
def HasDistinctKeys : Value → Prop
  | array items => ItemsHaveDistinctKeys items
  | dictionary entries => (Entries.keys entries).Nodup ∧ EntriesHaveDistinctKeys entries
  | _ => True

/-- Every item has distinct keys throughout. -/
def ItemsHaveDistinctKeys : List Value → Prop
  | [] => True
  | item :: rest => HasDistinctKeys item ∧ ItemsHaveDistinctKeys rest

/-- Every entry's value has distinct keys throughout. -/
def EntriesHaveDistinctKeys : List (Text × Value) → Prop
  | [] => True
  | (_, value) :: rest => HasDistinctKeys value ∧ EntriesHaveDistinctKeys rest

end

end Value

namespace Entries

/-- The integer at a key, signed or unsigned alike. An integer so large that its double would not
be its own counts as absent. -/
def integer? (d : Entries Value) (key : Text) : Option Int :=
  match d.get? key with
  | some (.int64 n) => if Double.isSafe n then some n else none
  | some (.uint64 n) => if Double.isSafe n then some n else none
  | _ => none

/-- The string at a key. -/
def string? (d : Entries Value) (key : Text) : Option Text :=
  match d.get? key with
  | some (.string t) => some t
  | _ => none

end Entries

end SwiftLens
