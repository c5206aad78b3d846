import SwiftLens.Action
import SwiftLens.Tree.Vocabulary

/-!
# Names of identifiers

Names are looked up once: a name that was found is kept for good. A look-up that found nothing, or
failed, leaves no trace and is made again the next time. Numbers below the least identifier are never
looked up.
-/

namespace SwiftLens

/-- The names found so far. -/
abbrev NameCache := List (Int × Text)

namespace NameCache

/-- The name of an identifier, if it has been found. -/
def find? (uid : Int) : NameCache → Option Text
  | [] => none
  | (u, name) :: rest => if u = uid then some name else find? uid rest

/-- Whether the name of an identifier has been found. -/
def has (cache : NameCache) (uid : Int) : Bool := (cache.find? uid).isSome

/-- How many identifiers have a name that has been found. -/
def size (cache : NameCache) : Nat := cache.length

/-- The name of an identifier, from the cache or by looking it up. -/
def resolve {σ : Type} (lookup : Int → Action σ (Option Text)) (uid : Int) :
    Action (NameCache × σ) (Option Text) :=
  if uid < leastUid then pure none
  else do
    match ← Action.read fun s => find? uid s.1 with
    | some name => pure (some name)
    | none =>
      match ← (lookup uid).second with
      | none => pure none
      | some name =>
        Action.modify fun s => (s.1 ++ [(uid, name)], s.2)
        pure (some name)

end NameCache

end SwiftLens
