import SwiftLens.Journal
import SwiftLens.Source

/-!
# A file system in memory

A file tree holds files and directories by their places, a place being the names on the way from the
root, as they are after encoding. It fails as a file system does: a name that is missing on the way, a
file in the place of a directory, a directory in the place of a file, a name or a path that is too long.
It serves as a store for journals and as a store of source files.
-/

namespace SwiftLens

/-- Files with their bytes and directories, by the names on the way from the root. A directory that
holds something need not be listed. -/
structure FileTree where
  files : List (List Text × Utf8.Bytes)
  directories : List (List Text)

namespace FileTree

/-- The place of an absolute path, first name first. -/
def placeOf (path : Text) : List Text := (Path.place (Utf8.wellFormed path)).reverse

/-- Whether there is a file at a place. -/
def isFile (t : FileTree) (place : List Text) : Bool := t.files.any fun f => f.1 == place

/-- Whether there is a directory at a place. -/
def isDirectory (t : FileTree) (place : List Text) : Bool :=
  place.isEmpty || t.directories.any (place.isPrefixOf ·)
    || t.files.any fun f => place.isPrefixOf f.1 && place != f.1

/-- The bytes of the file at a place. -/
def contents? (t : FileTree) (place : List Text) : Option Utf8.Bytes :=
  (t.files.find? fun f => f.1 == place).map Prod.snd

/-- Write a file whole. -/
def write (t : FileTree) (place : List Text) (bytes : Utf8.Bytes) : FileTree :=
  { t with files := (t.files.filter fun f => f.1 != place) ++ [(place, bytes)] }

/-! ## Limits -/

/-- The greatest number of bytes of a name. -/
def maxName : Nat := 255

/-- The greatest number of bytes of a path. -/
def maxPath : Nat := 4095

/-! ## Reading -/

/-- Follow names from a place; the result is the place that they lead to, or the failure of a call. -/
def walk (t : FileTree) (call path : Text) (place : List Text) : List Text → Except SystemError (List Text)
  | [] => .ok place
  | name :: rest =>
    if t.isFile place then .error (.notDirectory call path)
    else if !t.isDirectory place then .error (.missing call path)
    else if maxName < Utf8.size name then .error (.tooLong call path)
    else if name = "" ∨ name = "." then t.walk call path place rest
    else if name = ".." then t.walk call path place.dropLast rest
    else t.walk call path (place ++ [name]) rest

/-- The place that a path leads to, seen from a directory. -/
def locate (t : FileTree) (directory call path : Text) : Except SystemError (List Text) :=
  if path = "" then .error (.missing call path)
  else if maxPath < Utf8.size path then .error (.tooLong call path)
  else t.walk call path (if Path.isAbsolute path then [] else placeOf directory)
    (Path.names (Utf8.wellFormed path))

/-- The bytes of the file that a path leads to, seen from a directory. -/
def read (t : FileTree) (directory path : Text) : Except SystemError Utf8.Bytes := do
  SystemError.checkPath path
  let place ← t.locate directory "open" path
  match t.contents? place with
  | some bytes => .ok bytes
  | none => .error (if t.isDirectory place then .directoryRead else .missing "open" path)

/-! ## Writing -/

/-- Make directories below a place, name after name. What has been made when a name turns out too long
stays made; the failure then names the path up to that name, unless nothing had to be made before it. -/
def makeBelow (t : FileTree) (path : Text) (made : Bool) (place : List Text) :
    List Text → Except SystemError Unit × FileTree
  | [] => (.ok (), t)
  | name :: rest =>
    let next := place ++ [name]
    if maxName < Utf8.size name then
      (.error (.tooLong "mkdir" (if made then Path.ofPlace next.reverse else path)), t)
    else if t.isFile next then
      (.error (if rest.isEmpty then .present "mkdir" path else .notDirectory "mkdir" path), t)
    else if t.isDirectory next then t.makeBelow path made next rest
    else makeBelow { t with directories := t.directories ++ [next] } path true next rest

/-- Make the directory of an absolute path and those above it. -/
def makeDirectory (t : FileTree) (path : Text) : Except SystemError Unit × FileTree :=
  match SystemError.checkPath path with
  | .error e => (.error e, t)
  | .ok () =>
    if maxPath < Utf8.size path then (.error (.tooLong "mkdir" path), t)
    else t.makeBelow path false [] (placeOf path)

/-- Append a text to the file of an absolute path. -/
def append (t : FileTree) (path text : Text) : Except SystemError FileTree := do
  SystemError.checkPath path
  let place ← t.locate "/" "open" path
  if t.isDirectory place then .error (.isDirectory "open" path)
  else if !t.isDirectory place.dropLast then .error (.missing "open" path)
  else .ok (t.write place ((t.contents? place).getD [] ++ Utf8.encode text))

/-- The store of a state that holds a file tree. -/
def store {τ : Type} (get : τ → FileTree) (put : FileTree → τ → τ) : Store τ where
  makeDirectory path := fun s =>
    match (get s).makeDirectory path with
    | (r, t) => (r.mapError .system, put t s)
  append path text := fun s =>
    match (get s).append path text with
    | .ok t => (.ok (), put t s)
    | .error e => (.error (.system e), s)

/-- The source files of a tree, seen from a directory. -/
def sources (t : FileTree) (directory : Text) : Sources := Sources.ofSystem (t.read directory)

end FileTree

end SwiftLens
