import SwiftLens.Text.Utf8

/-!
# Decoding in pieces

UTF-8 that arrives in pieces may be cut inside a character. A stream holds back the bytes of a character
that a piece leaves unfinished and decodes them together with the bytes that continue it. How many bytes
a character needs is read off its first byte alone; a held character ends early where a byte comes that
continues none. What is held when the stream ends is never decoded.
-/

namespace SwiftLens.Utf8

/-- The bytes of a character that has begun and is held back. -/
structure Stream where
  held : Bytes
  deriving DecidableEq, Repr

namespace Stream

/-- Before any byte. -/
def fresh : Stream := ⟨[]⟩

/-- How many bytes a character with the given first byte needs; zero for a byte that begins no
character of several bytes. -/
def needed (first : UInt8) : Nat :=
  if 0xC0 ≤ first && first ≤ 0xDF then 2
  else if 0xE0 ≤ first && first ≤ 0xEF then 3
  else if 0xF0 ≤ first && first ≤ 0xF7 then 4
  else 0

/-- How many bytes at the end of a piece belong to a character that is unfinished. -/
def unfinished (piece : Bytes) : Nat :=
  let back := piece.reverse.take 4
  let count := (back.takeWhile isContinuation).length
  match back[count]? with
  | some first => if count + 1 < needed first then count + 1 else 0
  | none => 0

/-- Read a piece where no character is held. -/
def start (piece : Bytes) : Text × Stream :=
  let length := piece.length - unfinished piece
  (decode (piece.take length), ⟨piece.drop length⟩)

/-- Read a piece. -/
def feed (s : Stream) (piece : Bytes) : Text × Stream :=
  match s.held with
  | [] => start piece
  | first :: _ =>
    let missing := needed first - s.held.length
    let more := (piece.take missing).takeWhile isContinuation
    let rest := piece.drop more.length
    if more.length < missing && rest.isEmpty then ([], ⟨s.held ++ more⟩)
    else
      let (text, s') := start rest
      (decode (s.held ++ more) ++ text, s')

end Stream

end SwiftLens.Utf8
