import SwiftLens.Action

/-!
# Backends

A backend answers the five questions. It may be a helper at the end of a link or anything else with a
state of its own. Besides its answers it may have something to say to the user; these notes wait until
they are collected.
-/

namespace SwiftLens

/-- Something to tell the user. -/
inductive Note where
  /-- Told only to a user who wants to know everything. -/
  | info (text : Text)
  /-- Told to every user. -/
  | warning (text : Text)
  deriving DecidableEq, Repr

/-- What the library asks of the service that knows Swift; `σ` is the state of the service. -/
structure Backend (σ : Type) where
  /-- Begin the session. -/
  connect : Action σ Unit
  /-- The identifier of a name. -/
  uidOf : Text → Action σ Int
  /-- The name of an identifier, if it has one. -/
  nameOf : Int → Action σ (Option Text)
  /-- The response to a request. -/
  respond : Entries Value → Action σ Value
  /-- End the session. -/
  disconnect : Action σ Unit
  /-- The notes since they were last collected. -/
  notes : σ → List Note × σ

/-- The backend on the second part of a state. -/
def Backend.second {σ δ : Type} (b : Backend σ) : Backend (δ × σ) where
  connect := b.connect.second
  uidOf name := (b.uidOf name).second
  nameOf uid := (b.nameOf uid).second
  respond request := (b.respond request).second
  disconnect := b.disconnect.second
  notes s :=
    match b.notes s.2 with
    | (notes, t) => (notes, (s.1, t))

end SwiftLens
