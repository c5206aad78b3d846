import SwiftLens.Number.Arithmetic
import SwiftLens.Text.Utf8

/-!
# Documented tokens

A documentation comment ends with a line feed: either three slashes and the rest of their line, or
the end of a block comment at the end of a line. Each one documents the first identifier that starts
at or after the byte that follows it. The comments are found from left to right without overlap, and
the identifiers are taken in ascending order of their offsets, which count bytes.
-/

namespace SwiftLens.Documented

open CodeUnit

/-- Whether a unit ends a line. -/
def isLineEnd (c : CodeUnit) : Bool :=
  c == lineFeed || c == carriageReturn || c == 0x2028 || c == 0x2029

/-- The length of the documentation comment that begins at the front of a text. -/
def commentLength? : Text → Option Nat
  | slash :: slash :: slash :: rest =>
    match rest.dropWhile fun c => !isLineEnd c with
    | lineFeed :: _ => some (3 + (rest.takeWhile fun c => !isLineEnd c).length + 1)
    | _ => none
  | asterisk :: slash :: lineFeed :: _ => some 3
  | _ => none

/-- The positions just after the documentation comments, when `position` units have gone before and
the next `covered` units belong to a comment that has been found. -/
def commentEnds (position covered : Nat) : Text → List Nat
  | [] => []
  | c :: rest =>
    match covered with
    | covered + 1 => commentEnds (position + 1) covered rest
    | 0 =>
      match commentLength? (c :: rest) with
      | some n => (position + n) :: commentEnds (position + 1) (n - 1) rest
      | none => commentEnds (position + 1) 0 rest

/-- For each limit in turn the first of the ascending offsets that is not before it, until there is
none. -/
def firstFrom {α : Type} (isBefore : α → Nat → Bool) : List Nat → List α → List α
  | [], _ => []
  | limit :: limits, offsets =>
    match offsets.dropWhile fun o => isBefore o limit with
    | [] => []
    | offset :: rest => offset :: firstFrom isBefore limits (offset :: rest)

/-- Positions of a source text in UTF-8 bytes, counted on from slice to slice, when `previous` units that
take `size` bytes have been counted. -/
def bytePositions (source : Text) (previous size : Nat) : List Nat → List Nat
  | [] => []
  | e :: rest =>
    let size := size + Utf8.size ((source.take e).drop previous)
    size :: bytePositions source e size rest

/-- The ends of the documentation comments of a source text, in UTF-8 bytes. -/
def limits (source : Text) : List Nat := bytePositions source 0 0 (commentEnds 0 0 source)

/-- The offsets of the documented identifiers of a source text, given the offsets of its
identifiers. -/
def offsets (source : Text) (identifiers : List Int) : List Int :=
  firstFrom (fun o limit => decide (o < limit)) (limits source) (identifiers.mergeSort fun a b => a ≤ b)

/-- The same for offsets that need not be integers. -/
def fractionalOffsets (source : Text) (identifiers : List Double) : List Double :=
  firstFrom (fun o limit => !(Double.ofNat limit).le o) (limits source) (identifiers.mergeSort Double.le)

end SwiftLens.Documented
