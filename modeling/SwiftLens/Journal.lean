import SwiftLens.Action
import SwiftLens.Path

/-!
# The journal

A journal is a file with one line of JSON for each entry, kept in a directory of its own that is made
before the first entry is written. There are two ways of writing. `log` fails when the entry cannot be
written. `record` never fails: the first entry that it cannot write is reported, and from then on it
writes nothing more.
-/

namespace SwiftLens

/-- What a journal needs of the file system; `τ` is the state of the file system. -/
structure Store (τ : Type) where
  /-- Make a directory and those above it, where they are missing. -/
  makeDirectory : Text → Action τ Unit
  /-- Add a text to the end of a file, and make the file if it is missing. -/
  append : (file text : Text) → Action τ Unit

/-- A journal: its file and the session that writes it. -/
structure Journal where
  file : Text
  session : Text
  deriving DecidableEq, Repr

namespace Journal

/-- The journal of a session, in the directory for journals below the given one. -/
def ofSession (stateDir session : Text) : Journal :=
  ⟨Path.resolve (Path.resolve stateDir "audit") (session ++ ".jsonl"), session⟩

/-- How far a journal has come. -/
structure Progress where
  /-- Whether the directory has been made. -/
  hasDirectory : Bool
  /-- Whether `record` has given up. -/
  hasFailed : Bool
  deriving DecidableEq, Repr

/-- Before the first entry. -/
def Progress.start : Progress := ⟨false, false⟩

/-- An entry as an object. -/
def entry (stamp session type : Text) : Option (Json Double) → Json Double
  | some data =>
    .object [("ts", .string stamp), ("sessionId", .string session), ("type", .string type), ("data", data)]
  | none => .object [("ts", .string stamp), ("sessionId", .string session), ("type", .string type)]

variable {τ : Type}

/-- Write an entry. -/
def log (j : Journal) (store : Store τ) (stamp type : Text) (data : Option (Json Double)) :
    Action (Progress × τ) Unit := do
  if ← Action.read fun s => s.1.hasDirectory then pure ()
  else do
    (store.makeDirectory (Path.parent j.file)).second
    Action.modify fun s => ({ s.1 with hasDirectory := true }, s.2)
  (store.append j.file ((entry stamp j.session type data).write ++ "\n")).second

/-- What is said when a journal gives up. -/
def warning (j : Journal) (e : Fault) : Text :=
  "Audit log disabled, could not write " ++ j.file ++ ": " ++ e.message

/-- Write an entry unless the journal has given up; the result is what there is to say about it. -/
def record (j : Journal) (store : Store τ) (stamp type : Text) (data : Option (Json Double))
    (s : Progress × τ) : Option Text × (Progress × τ) :=
  if s.1.hasFailed then (none, s)
  else
    match j.log store stamp type data s with
    | (.ok (), s) => (none, s)
    | (.error e, s) => (some (j.warning e), ({ s.1 with hasFailed := true }, s.2))

end Journal

end SwiftLens
