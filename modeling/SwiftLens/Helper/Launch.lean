import SwiftLens.Entries
import SwiftLens.SystemError

/-!
# Arguments of a process

What the operating system is asked to run has a command, arguments and an environment. None of them may
hold U+0000, and the command may not be empty; otherwise the system is not asked at all.
-/

namespace SwiftLens.Launch

/-- The rule that forbids U+0000. -/
def withoutNul : Text := "must be a string without null bytes"

/-- The refusal of an argument that holds U+0000. -/
def checkNul (name argument : Text) : Except SystemError Unit :=
  if argument.contains CodeUnit.nul then .error (.refusal name withoutNul argument) else .ok ()

/-- The refusal of one of several arguments, of which the first has the given number. -/
def checkArguments (number : Nat) : List Text → Except SystemError Unit
  | [] => .ok ()
  | argument :: rest => do
    checkNul ("args[" ++ Text.ofNat number ++ "]") argument
    checkArguments (number + 1) rest

/-- The refusal of a variable whose name or value holds U+0000. -/
def checkEnvironment : Entries Text → Except SystemError Unit
  | [] => .ok ()
  | (name, value) :: rest => do
    checkNul ("options.env['" ++ name ++ "']") name
    checkNul ("options.env['" ++ name ++ "']") value
    checkEnvironment rest

/-- The refusal of a command. -/
def checkCommand (command : Text) : Except SystemError Unit := do
  checkNul "file" command
  if command = "" then .error (.refusal "file" "cannot be empty" command) else .ok ()

/-- Whether a process may be asked for, or why not. -/
def check (command : Text) (args : List Text) (environment : Entries Text) : Except SystemError Unit := do
  checkCommand command
  checkArguments 0 args
  checkEnvironment environment

end SwiftLens.Launch
