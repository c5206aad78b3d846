import SwiftLens.NameCache
import SwiftLens.Token.Basic

/-!
# Tokens with named kinds

The kinds of the records are resolved one after the other; the first that has no name ends the
reading. Two readings are offered: all tokens, and the offsets of the identifiers among them.
-/

namespace SwiftLens.Token

variable {σ : Type}

/-- The name of the kind of the record with the given number. -/
def kindOf (lookup : Int → Action σ (Option Text)) (index : Nat) (r : Record) :
    Action (NameCache × σ) Text := do
  match ← NameCache.resolve lookup r.uid with
  | some kind => pure kind
  | none => Action.fail (.token (.unnamedKind r.uid index))

/-- The tokens of records, the first of which has the given number. -/
def nameAll (lookup : Int → Action σ (Option Text)) (index : Nat) :
    List Record → Action (NameCache × σ) (List Token)
  | [] => pure []
  | r :: rest => do
    let kind ← kindOf lookup index r
    let tokens ← nameAll lookup (index + 1) rest
    pure (⟨kind, r.offset, r.length⟩ :: tokens)

/-- The offsets of the identifiers among records, the first of which has the given number. -/
def identifiersAmong (lookup : Int → Action σ (Option Text)) (index : Nat) :
    List Record → Action (NameCache × σ) (List Int)
  | [] => pure []
  | r :: rest => do
    let kind ← kindOf lookup index r
    let offsets ← identifiersAmong lookup (index + 1) rest
    pure (if kind = Kind.identifier then (r.offset : Int) :: offsets else offsets)

/-- The records of a byte string, or the fault of its having none. -/
def recordsOf (bytes : Utf8.Bytes) : Except Fault (List Record) := (records bytes).mapError .token

/-- The tokens of a byte string. -/
def readAll (lookup : Int → Action σ (Option Text)) (bytes : Utf8.Bytes) :
    Action (NameCache × σ) (List Token) := do
  let records ← Action.ofExcept (recordsOf bytes)
  nameAll lookup 0 records

/-- The offsets of the identifiers of a byte string, in order. -/
def identifierOffsets (lookup : Int → Action σ (Option Text)) (bytes : Utf8.Bytes) :
    Action (NameCache × σ) (List Int) := do
  let records ← Action.ofExcept (recordsOf bytes)
  identifiersAmong lookup 0 records

end SwiftLens.Token
