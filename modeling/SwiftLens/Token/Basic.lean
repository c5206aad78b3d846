import SwiftLens.Text.Utf8
import SwiftLens.Tree.Value

/-!
# Tokens

The tokens of a file arrive as one byte string: a header of sixteen bytes, the second half of which
holds the number of tokens times sixteen, and then a record of sixteen bytes for each token, all
numbers with their low byte first. A record holds the identifier of the token's kind (eight bytes),
its offset (four bytes) and twice its length (four bytes). Bytes after the declared records are
ignored, and so are the first half of the header and the bits shifted out of the counts.
-/

namespace SwiftLens

/-- A token of a source file; offset and length count bytes. -/
structure Token where
  kind : Text
  offset : Int
  length : Int
  deriving DecidableEq, Repr

/-- A token as a tree. -/
def Token.toValue (t : Token) : Value :=
  .dictionary [("type", .string t.kind), ("offset", .int64 t.offset), ("length", .int64 t.length)]

namespace Token

/-- Why a byte string does not give tokens. -/
inductive Defect where
  /-- Shorter than its header. -/
  | noHeader (byteLength : Nat)
  /-- Shorter than the records it declares. -/
  | tooShort (declared byteLength : Nat)
  /-- A record whose kind has no name. -/
  | unnamedKind (uid : Nat) (index : Nat)
  deriving DecidableEq, Repr

/-- The length of the header, and that of a record. -/
def recordSize : Nat := 16

/-- A defect in words. -/
def Defect.message : Defect → Text
  | noHeader byteLength =>
    "Syntax map is " ++ Text.ofNat byteLength ++ " bytes, shorter than its 16-byte header."
  | tooShort declared byteLength =>
    "Syntax map declares " ++ Text.ofNat declared ++ " tokens but only has room for "
      ++ Text.ofNat ((byteLength - recordSize) / recordSize) ++ "."
  | unnamedKind uid index =>
    "Syntax token " ++ Text.ofNat index ++ " has kind UID " ++ Text.ofNat uid ++ " with no name."

/-! ## Records -/

/-- A token whose kind is still an identifier. -/
structure Record where
  uid : Nat
  offset : Nat
  length : Nat
  deriving DecidableEq, Repr

/-- The number whose bytes are given, low byte first. -/
def littleEndian : Utf8.Bytes → Nat
  | [] => 0
  | b :: rest => b.toNat + 256 * littleEndian rest

/-- The record in sixteen bytes. -/
def Record.ofBytes (bytes : Utf8.Bytes) : Record :=
  ⟨littleEndian (bytes.take 8), littleEndian ((bytes.drop 8).take 4),
    littleEndian ((bytes.drop 12).take 4) / 2⟩

/-- The given number of records from the front of the bytes. -/
def takeRecords : Nat → Utf8.Bytes → List Record
  | 0, _ => []
  | n + 1, bytes => Record.ofBytes (bytes.take recordSize) :: takeRecords n (bytes.drop recordSize)

/-- The number of tokens that a header declares. -/
def declaredCount (bytes : Utf8.Bytes) : Nat := littleEndian ((bytes.drop 8).take 8) / 16

/-- The records of a byte string. -/
def records (bytes : Utf8.Bytes) : Except Defect (List Record) :=
  if bytes.length < recordSize then .error (.noHeader bytes.length)
  else if bytes.length < recordSize + declaredCount bytes * recordSize then
    .error (.tooShort (declaredCount bytes) bytes.length)
  else .ok (takeRecords (declaredCount bytes) (bytes.drop recordSize))

end Token

end SwiftLens
