import SwiftLens.Command.Run
import SwiftLens.Helper.Launch

/-!
# The executable

The executable gathers what a run needs of the machine, runs the program, writes what the journal
collected, and prints. It cannot run processes itself: every helper is reported as missing, just as a
command is whose executable does not exist. Since no helper answers, no source is read; and there is no
library at hand that loads a file of settings, so the environment is taken as it is.
-/

namespace SwiftLens.Executable

/-- What a run leaves to be done on the machine, and what the process of the helper has done. -/
structure Machine where
  events : List ProcessEvent
  /-- Directories to make and texts to append to files, in order. -/
  writes : List (Text ⊕ (Text × Text))

/-- The process of a helper that is not there. -/
def missing (command : Text) (args : List Text) (environment : Entries Text) : Launcher Machine where
  spawn := fun m =>
    match Launch.check command args environment with
    | .error e => (.error (.system e), m)
    | .ok () =>
      (.ok (), { m with
        events := m.events ++ [.failed ("spawn " ++ command ++ " ENOENT"), .closed (some (-2))] })
  write _ m := m
  finish m := m
  poll m := (m.events, { m with events := [] })

/-- A store that remembers what is to be written. -/
def store : Store Machine where
  makeDirectory directory := Action.modify fun m => { m with writes := m.writes ++ [.inl directory] }
  append file text := Action.modify fun m => { m with writes := m.writes ++ [.inr (file, text)] }

/-- The variables of the environment that the program reads. -/
def variableNames : List String :=
  ["SOURCEKIT_BRIDGE_PATH", "SOURCEKIT_BRIDGE_ARGS", "SOURCEKIT_TIMEOUT_MS", "SOURCEKIT_STATE_DIR",
    "SOURCEKIT_AUDIT", "SOURCEKIT_VERBOSE"]

/-- The bytes of a text. -/
def bytes (t : Text) : ByteArray := ⟨(Utf8.encode t).toArray⟩

/-- The text as a string. -/
def string (t : Text) : String := (String.fromUTF8? (bytes t)).getD ""

/-- Make a directory or append to a file. -/
def perform : Text ⊕ (Text × Text) → IO Unit
  | .inl directory => IO.FS.createDirAll (string directory)
  | .inr (file, text) => do
    let handle ← IO.FS.Handle.mk (string file) .append
    handle.write (bytes text)

/-- Those variables that are set. -/
def environment : IO (Entries Text) := do
  let found ← variableNames.mapM fun name => do
    let value ← IO.getEnv name
    pure (value.map fun v => (Text.ofString name, Text.ofString v))
  pure (found.filterMap id)

/-- The point in time at which this process began, as the system keeps it. -/
def beginning : IO Int := do
  try
    let metadata ← ((← IO.currentDir) / "/proc/self").metadata
    pure (metadata.modified.sec * 1000 + metadata.modified.nsec.toNat / 1000000)
  catch _ => pure 0

end SwiftLens.Executable

open SwiftLens in
/-- Run the program on the words of the command line. -/
def main (words : List String) : IO UInt32 := do
  let directory := Text.ofString (← IO.currentDir).toString
  let environment ← Executable.environment
  let words := words.map Text.ofString
  let host : Host Executable.Machine :=
    { directory := directory
      environment := environment
      load := fun _ environment => ⟨environment, ""⟩
      read := fun path => .error (.missing "open" path)
      process := Executable.missing
      store := Executable.store
      now := ← Executable.beginning }
  let (outcome, machine) := Program.run host words ⟨[], []⟩
  for write in machine.writes do
    Executable.perform write
  (← IO.getStdout).write (Executable.bytes outcome.output)
  (← IO.getStderr).write (Executable.bytes outcome.errors)
  pure (UInt32.ofNat outcome.exitCode)
