import SwiftLens.Proofs.Inspection.Correspondence
import SwiftLens.Proofs.Inspection.Recording

/-!
# A record changes nothing

A service with a record, when the record is forgotten, is the service itself. So an inspection with a
record stands for the inspection without: same result, same names found, and the state at the end is
the state at the end with the record left out. `Action.Tracks` says this of two actions of which one
has a state that stands for that of the other; it is the case of `Action.Matches` in which the relation
is a function. `docs_forgetting_record` is the inspection that is used.
-/

namespace SwiftLens

variable {S T α δ σ : Type}

namespace Action

/-- The second action does, in the states that `f` gives, what the first does. -/
def Tracks (f : S → T) (a : Action S α) (b : Action T α) : Prop :=
  ∀ s, b (f s) = ((a s).1, f (a s).2)

/-- A function on the second part of a state. -/
def onSecond (f : S → T) (s : δ × S) : δ × T := (s.1, f s.2)

/-- To track is to match where the relation is a function of the state. -/
theorem tracks_iff_matches {f : S → T} {a : Action S α} {b : Action T α} :
    Tracks f a b ↔ Matches (fun s t => f s = t) a b := by
  constructor
  · rintro h s _ rfl
    rw [h s]
    exact ⟨rfl, rfl⟩
  · intro h s
    obtain ⟨hresult, hstate⟩ := h s (f s) rfl
    rw [hresult, hstate]

/-- States with the same first part and second parts that are related by a function are related by a function. -/
theorem sameFirst_eq_onSecond {f : S → T} :
    SameFirst (fun s t => f s = t) = fun (s : δ × S) t => onSecond f s = t := by
  funext s t
  rw [Prod.ext_iff]
  rfl

/-- An action that is written down is the action, when the record is forgotten. -/
theorem matches_noted (note : Except Fault α → Exchange) (a : Action σ α) :
    Matches (fun s t => s.2 = t) (a.noted note) a := by
  rintro s _ rfl
  exact ⟨rfl, rfl⟩

end Action

open SwiftLens.Action (Tracks onSecond matches_noted)

/-- With a record a service and a reader answer as they do without. -/
theorem peers_recorded (backend : Backend σ) (reader : SourceReader σ) :
    Peers (Action.SameFirst fun s t => s.2 = t) backend.recorded backend reader.recorded reader where
  uidOf _ := (matches_noted _ _).second
  resolve := NameCache.matches_resolve fun _ => matches_noted _ _
  respond _ := (matches_noted _ _).second
  whole _ := (matches_noted _ _).second
  range _ _ _ := (matches_noted _ _).second

/-- An inspection of documentation with a record is the inspection, when the record is forgotten. -/
theorem Inspection.docs_forgetting_record (backend : Backend σ) (reader : SourceReader σ)
    (args : List Text) :
    Tracks (onSecond Prod.snd) (docs backend.recorded reader.recorded args)
      (docs backend reader args) := by
  rw [Action.tracks_iff_matches, ← Action.sameFirst_eq_onSecond]
  exact matches_docs (peers_recorded backend reader) args

end SwiftLens
