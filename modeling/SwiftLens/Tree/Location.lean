import SwiftLens.Text

/-!
# Locations

A location is the way from the root of a value to one of its nodes, as a list of steps. A fault that
is found inside a value is reported relative to the node that is looked at, and each node on the way
out puts its own step in front. A printed path is a base, such as `$`, followed by the steps.
-/

namespace SwiftLens

/-- A step from a node to one of its parts. -/
inductive Step where
  /-- To the part with a name. -/
  | field (name : Text)
  /-- To the part with a number. -/
  | item (index : Nat)
  deriving DecidableEq, Repr

/-- A step as it is printed. -/
def Step.text : Step → Text
  | field name => "." ++ name
  | item index => "[" ++ Text.ofNat index ++ "]"

/-- The way from a root to a node. -/
abbrev Location := List Step

/-- The steps of a location, printed one after the other. -/
def Location.text (steps : Location) : Text := steps.flatMap Step.text

/-- A defect and where it was found. -/
structure Located (δ : Type) where
  location : Location
  defect : δ
  deriving DecidableEq, Repr

namespace Located

variable {δ α : Type}

/-- A defect of the node that is looked at. -/
def here (defect : δ) : Except (Located δ) α := .error ⟨[], defect⟩

/-- A result for the part that `step` leads to, as seen from the whole. -/
def under (step : Step) : Except (Located δ) α → Except (Located δ) α
  | .ok a => .ok a
  | .error e => .error ⟨step :: e.location, e.defect⟩

end Located

end SwiftLens
