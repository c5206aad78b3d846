import SwiftLens.Number.Arithmetic
import SwiftLens.Number.Layout
import SwiftLens.Text.Blank

/-!
# Words and excerpts

An argument string is cut into words at white space; a space inside a word is written as a
backslash and a space. The cut is made in three moves: every escaped space becomes the placeholder
U+0000, the text is split at white space, and the placeholders become spaces again. A text that
already holds U+0000 therefore gets spaces in its place.

An excerpt shows the beginning of a long text and how much of it is missing. Where it is cut is a number
like any other: it may be fractional, negative or infinite.
-/

namespace SwiftLens.Text

/-- The text with every backslash and space, taken from the left, replaced by U+0000. -/
def hideEscapedSpaces : Text → Text
  | CodeUnit.backslash :: CodeUnit.space :: rest => CodeUnit.nul :: hideEscapedSpaces rest
  | c :: rest => c :: hideEscapedSpaces rest
  | [] => []

/-- The text with every U+0000 replaced by a space. -/
def revealSpaces (t : Text) : Text :=
  t.map fun c => if c = CodeUnit.nul then CodeUnit.space else c

/-- The words of an argument string, in order. -/
def words (t : Text) : List Text :=
  (((t.hideEscapedSpaces).splitOn CodeUnit.isBlank).filter fun w => !w.isEmpty).map revealSpaces

/-- The place at which a text of the given length is cut, for a cut at `max`: what follows the decimal
point of `max` does not count, and a negative `max` counts from the end. -/
def cutAt (length : Nat) (max : Double) : Nat :=
  if max.isNaN then 0
  else if !max.isFinite then if max.isNegative then 0 else length
  else if max.truncate < 0 then length - max.truncate.natAbs
  else max.truncate.natAbs

/-- A text that is at most `max` units long; of a longer one its beginning, and a note on how much longer
than `max` it is. -/
def clip (t : Text) (max : Double) : Text :=
  let length := Double.ofNat t.length
  if length.le max then t
  else t.take (cutAt t.length max) ++ "...[truncated " ++ (length.sub max).text ++ " chars]"

end SwiftLens.Text
