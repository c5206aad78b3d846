import SwiftLens.Text.Literal
import SwiftLens.Text.Utf8

/-!
# Failures of the operating system

A call to the operating system fails with a code and with words. The words name the call and the path,
the path as the system sees it, which is after it has been encoded. An argument that holds U+0000 cannot
be handed to the system; such a call is refused before it is made.
-/

namespace SwiftLens

/-- A failure of the operating system: its code and its words. -/
structure SystemError where
  code : Text
  message : Text
  deriving DecidableEq, Repr

namespace SystemError

/-- The failure of a call on a path, with its code and what the code means. -/
def ofCall (code meaning call path : Text) : SystemError :=
  ⟨code, code ++ ": " ++ meaning ++ ", " ++ call ++ " '" ++ Utf8.wellFormed path ++ "'"⟩

/-- Something on the way is missing. -/
def missing (call path : Text) : SystemError := ofCall "ENOENT" "no such file or directory" call path

/-- Something on the way is a file. -/
def notDirectory (call path : Text) : SystemError := ofCall "ENOTDIR" "not a directory" call path

/-- A name on the way, or the path itself, is too long. -/
def tooLong (call path : Text) : SystemError := ofCall "ENAMETOOLONG" "name too long" call path

/-- A file is where a directory is to be made. -/
def present (call path : Text) : SystemError := ofCall "EEXIST" "file already exists" call path

/-- A directory is where a file is to be opened. -/
def isDirectory (call path : Text) : SystemError :=
  ofCall "EISDIR" "illegal operation on a directory" call path

/-- A directory is where a file is read, which is found out only when it has been opened. -/
def directoryRead : SystemError := ⟨"EISDIR", "EISDIR: illegal operation on a directory, read"⟩

/-! ## Refusals -/

/-- The code of a refusal. -/
def refusalCode : Text := "ERR_INVALID_ARG_VALUE"

/-- The literal of a refused argument; of a long one only the beginning is shown. -/
def received (argument : Text) : Text :=
  let shown := argument.literal
  if 128 < shown.length then shown.take 128 ++ "..." else shown

/-- The refusal of an argument, by its name and the rule that it breaks. -/
def refusal (name rule argument : Text) : SystemError :=
  let sort : Text := if name.contains CodeUnit.dot then "property" else "argument"
  ⟨refusalCode, "The " ++ sort ++ " '" ++ name ++ "' " ++ rule ++ ". Received " ++ received argument⟩

/-- The refusal of a path that holds U+0000. -/
def checkPath (path : Text) : Except SystemError Unit :=
  if path.contains CodeUnit.nul then
    .error (refusal "path" "must be a string, Uint8Array, or URL without null bytes" path)
  else .ok ()

end SystemError

end SwiftLens
