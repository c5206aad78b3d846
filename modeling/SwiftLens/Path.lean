import SwiftLens.Text

/-!
# Paths

An absolute path is a slash followed by names with slashes between them. Resolving a path against a
directory gives an absolute path without empty names and without the names `.` and `..`; going up from
the root stays at the root.
-/

namespace SwiftLens.Path

/-- The names between the slashes of a path. -/
def names (path : Text) : List Text := Text.splitOn (· == CodeUnit.slash) path

/-- Whether a path begins at the root. -/
def isAbsolute (path : Text) : Bool := path.head? == some CodeUnit.slash

/-- Follow a name from the place that is reached by the given names, last name first. -/
def follow (place : List Text) (name : Text) : List Text :=
  if name = "" ∨ name = "." then place
  else if name = ".." then place.tail
  else name :: place

/-- The absolute path of a place. -/
def ofPlace (place : List Text) : Text := "/" ++ Text.join "/" place.reverse

/-- The place of an absolute path, last name first. -/
def place (path : Text) : List Text := (names path).foldl follow []

/-- The absolute path that a path denotes, seen from a directory. -/
def resolve (directory path : Text) : Text :=
  ofPlace (if isAbsolute path then place path else (names path).foldl follow (place directory))

/-- The directory that holds what an absolute path denotes. -/
def parent (path : Text) : Text := ofPlace (place path).tail

end SwiftLens.Path
