import SwiftLens.Json.Writer
import SwiftLens.Tree.Location
import SwiftLens.Tree.Value

/-!
# Documents

A document is a tree printed as JSON for a reader: two spaces for each level, one member to a line,
empty containers on one line, integers digit for digit. Byte strings and numbers that are not finite
have no JSON form; the first such leaf in document order is refused with its location.
-/

namespace SwiftLens.Document

/-- Why a tree cannot be printed. -/
inductive Defect where
  /-- A byte string of the given length. -/
  | binary (byteLength : Nat)
  /-- A number that is not finite. -/
  | notFinite (value : Double)
  deriving DecidableEq, Repr

/-- A defect at a path, in words. -/
def Defect.message (path : Text) : Defect → Text
  | binary _ => "Undecoded binary data at " ++ path ++ "; strip or decode it before serializing."
  | notFinite _ => "Non-finite number at " ++ path ++ " cannot be written as JSON."

/-- The indentation of a level. -/
def indent (level : Nat) : Text := List.replicate (2 * level) CodeUnit.space

/-- Members between brackets, one to a line, when the brackets stand at the given level. -/
def enclose (opening closing : Text) (level : Nat) : List Text → Text
  | [] => opening ++ closing
  | lines =>
    opening ++ "\n" ++ (Text.join ",\n" (lines.map fun line => indent (level + 1) ++ line)
      ++ ("\n" ++ indent level ++ closing))

mutual

/-- A tree printed at a level. -/
def render (level : Nat) : Value → Except (Located Defect) Text
  | .null => .ok "null"
  | .bool true => .ok "true"
  | .bool false => .ok "false"
  | .int64 n => .ok (Text.ofInt n)
  | .uint64 n => .ok (Text.ofInt n)
  | .double x => if x.isFinite then .ok x.text else Located.here (.notFinite x)
  | .string t => .ok (Json.writeString t)
  | .data bytes => Located.here (.binary bytes.length)
  | .array items => (renderItems (level + 1) 0 items).map (enclose "[" "]" level)
  | .dictionary entries => (renderEntries (level + 1) entries).map (enclose "\x7b" "\x7d" level)

/-- Items printed at a level, the first of which has the given number. -/
def renderItems (level index : Nat) : List Value → Except (Located Defect) (List Text)
  | [] => .ok []
  | item :: rest =>
    match Located.under (.item index) (render level item) with
    | .error e => .error e
    | .ok line => (renderItems level (index + 1) rest).map fun lines => line :: lines

/-- Entries printed at a level, each as key and value. -/
def renderEntries (level : Nat) : List (Text × Value) → Except (Located Defect) (List Text)
  | [] => .ok []
  | (key, value) :: rest =>
    match Located.under (.field key) (render level value) with
    | .error e => .error e
    | .ok line =>
      (renderEntries level rest).map fun lines => (Json.writeString key ++ ": " ++ line) :: lines

end

end SwiftLens.Document
