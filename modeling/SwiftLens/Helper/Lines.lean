import SwiftLens.Text.Blank

/-!
# Lines of output

The helper's output arrives in pieces that need not end where a line does. A line ends with a line
feed, with a carriage return, or with both in that order. Lines of white space only are dropped, and
what is left at the end of the output is a line too.
-/

namespace SwiftLens

/-- A line that has begun: its units so far, the last one first, and whether the last unit read was a
carriage return, which has ended a line already. -/
structure Lines where
  begun : Text
  afterReturn : Bool
  deriving DecidableEq, Repr

namespace Lines

open CodeUnit

/-- Before any output. -/
def fresh : Lines := ⟨[], false⟩

/-- The line that has begun, unless it is blank. -/
def finish (l : Lines) : List Text := if l.begun.isBlank then [] else [l.begun.reverse]

/-- Read a unit; the result holds the line that it ends, if it ends one. -/
def step (l : Lines) (c : CodeUnit) : List Text × Lines :=
  if c = lineFeed then if l.afterReturn then ([], fresh) else (l.finish, fresh)
  else if c = carriageReturn then (l.finish, ⟨[], true⟩)
  else ([], ⟨c :: l.begun, false⟩)

/-- Read a piece of output; the result holds the lines that end in it. -/
def feed (l : Lines) : Text → List Text × Lines
  | [] => ([], l)
  | c :: rest =>
    match l.step c with
    | (ended, l) =>
      match l.feed rest with
      | (lines, l) => (ended ++ lines, l)

end Lines

end SwiftLens
