import SwiftLens.Text

/-!
# Ordered entries

Entries are keyed values in the order in which their keys first came up. Writing a key that is
present keeps its place; writing a new one appends it. Dictionaries, JSON objects, files and
environment variables are all entries.

Some objects list their keys in another order: first those that are array indices, ascending, then
the rest as they came. `inPropertyOrder` arranges entries so.
-/

namespace SwiftLens

/-- Keyed values, in the order in which the keys first came up. -/
abbrev Entries (α : Type) := List (Text × α)

namespace Entries

variable {α : Type}

/-- The keys in order. -/
def keys (d : Entries α) : List Text := d.map Prod.fst

/-- The value at a key. -/
def get? (key : Text) : Entries α → Option α
  | [] => none
  | (k, v) :: rest => if k = key then some v else get? key rest

/-- Whether a key is present. -/
def has (d : Entries α) (key : Text) : Bool := (d.get? key).isSome

/-- Write a value at a key: in place if the key is present, at the end otherwise. -/
def set (key : Text) (value : α) : Entries α → Entries α
  | [] => [(key, value)]
  | (k, v) :: rest => if k = key then (k, value) :: rest else (k, v) :: set key value rest

/-- Remove a key, keeping the order of the others. -/
def erase (key : Text) (d : Entries α) : Entries α := d.filter fun entry => entry.1 ≠ key

/-- Entries from a list of pairs: each key at its first place with its last value. -/
def ofPairs (pairs : List (Text × α)) : Entries α :=
  pairs.foldl (fun d pair => set pair.1 pair.2 d) []

/-! ## Property order -/

/-- The number that a key denotes as an array index: a decimal without leading zeros that is at
most `2 ^ 32 - 2`. -/
def index? (key : Text) : Option Nat :=
  match key.toNat? with
  | some n => if key = Text.ofNat n ∧ n ≤ 4294967294 then some n else none
  | none => none

/-- Entries with the array indices first, in ascending order, and the other keys as they came. -/
def inPropertyOrder (d : Entries α) : Entries α :=
  let indexed := d.filterMap fun entry => (index? entry.1).map fun n => (n, entry)
  (indexed.mergeSort fun a b => a.1 ≤ b.1).map Prod.snd
    ++ d.filter fun entry => (index? entry.1).isNone

end Entries

end SwiftLens
