import SwiftLens.Entries
import SwiftLens.Number.Layout
import SwiftLens.SystemError
import SwiftLens.Text.Utf8

/-!
# Source files

Source text is read from files by byte ranges. A range is refused when it does not lie in the file,
and when it begins or ends inside a character; otherwise its bytes are decoded. A range is given by
two numbers as they came, so that a range which is no range at all can be named in the refusal.
-/

namespace SwiftLens

namespace Source

/-- Why source text cannot be read. -/
inductive Defect where
  /-- The file could not be read. -/
  | unreadable (file : Text) (cause : SystemError)
  /-- There is no file of that name. -/
  | unknown (file : Text)
  /-- The range does not lie in the file. -/
  | outside (file : Text) (offset length : Double) (byteLength : Nat)
  /-- The range begins or ends inside a character. -/
  | splitsCharacter (file : Text) (offset length : Double)
  deriving DecidableEq, Repr

/-- A range as it is printed. -/
def rangeText (offset length : Double) : Text :=
  "Byte range " ++ offset.text ++ "+" ++ length.text

/-- A defect in words. -/
def Defect.message : Defect → Text
  | unreadable file cause => "Could not read " ++ Text.quoted file ++ ": " ++ cause.message
  | unknown file => "No source text for " ++ Text.quoted file ++ "."
  | outside file offset length byteLength =>
    rangeText offset length ++ " is outside " ++ Text.quoted file ++ " (" ++ Text.ofNat byteLength
      ++ " bytes)."
  | splitsCharacter file offset length =>
    rangeText offset length ++ " of " ++ Text.quoted file ++ " splits a UTF-8 character."

/-- Whether the byte at a position continues a character. -/
def isInsideCharacter (bytes : Utf8.Bytes) (position : Nat) : Bool :=
  match bytes[position]? with
  | some b => Utf8.isContinuation b
  | none => false

/-- The offset and the length of a range that lies in `size` bytes. -/
def range? (size : Nat) (offset length : Double) : Option (Nat × Nat) :=
  match offset.toInt?, length.toInt? with
  | some (.ofNat o), some (.ofNat l) => if o + l ≤ size then some (o, l) else none
  | _, _ => none

/-- The text of a range of bytes. -/
def slice (file : Text) (bytes : Utf8.Bytes) (offset length : Double) : Except Defect Text :=
  match range? bytes.length offset length with
  | none => .error (.outside file offset length bytes.length)
  | some (o, l) =>
    if isInsideCharacter bytes o || isInsideCharacter bytes (o + l) then
      .error (.splitsCharacter file offset length)
    else .ok (Utf8.decode ((bytes.drop o).take l))

end Source

/-- A store of source files: the bytes of each file, or why it cannot be read. -/
structure Sources where
  contents : Text → Except Source.Defect Utf8.Bytes

namespace Sources

/-- Files kept in memory. -/
def ofTexts (files : Entries Text) : Sources where
  contents file :=
    match files.get? file with
    | some text => .ok (Utf8.encode text)
    | none => .error (.unknown file)

/-- Files that the operating system reads. -/
def ofSystem (read : Text → Except SystemError Utf8.Bytes) : Sources where
  contents file :=
    match read file with
    | .ok bytes => .ok bytes
    | .error cause => .error (.unreadable file cause)

/-- The whole text of a file. -/
def readAll (s : Sources) (file : Text) : Except Source.Defect Text :=
  (s.contents file).map Utf8.decode

/-- The text of a range of a file's bytes. -/
def readRange (s : Sources) (file : Text) (offset length : Double) : Except Source.Defect Text :=
  match s.contents file with
  | .error e => .error e
  | .ok bytes => Source.slice file bytes offset length

end Sources

end SwiftLens
